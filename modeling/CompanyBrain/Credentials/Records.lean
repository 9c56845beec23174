import CompanyBrain.Foundations.JsText

namespace CompanyBrain.Credentials

open Foundations

-- An id is a hash of its parts; the model keeps the parts themselves.
structure CredId where
  ownerId : String
  service : String
  slot : String
deriving DecidableEq

def credId (ownerId service slot : String) : CredId := ⟨ownerId,service,slot⟩

inductive CredentialKind where
  | env | file | broker
deriving DecidableEq

structure CredentialInjection where
  header : Option String
  scheme : Option String
deriving DecidableEq

inductive DeliveryMode where
  | broker | env
deriving DecidableEq

structure BrokerDelivery where
  name : String
  delivery : Option DeliveryMode
  envKey : Option String
  injection : Option CredentialInjection
  allowedMethods : Option (List String)
  allowedPathPrefixes : Option (List String)
  enabled : Bool
  updatedBy : Option String
deriving DecidableEq

structure CredentialFile where
  path : String
  contentBase64 : String
deriving DecidableEq

structure CredentialFieldMeta where
  envKey : String
  secret : Bool
deriving DecidableEq

inductive Secret where
  | raw (text : String)
  | fields (values : List (String × String))
  | files (files : List CredentialFile)
deriving DecidableEq

structure Sealed where
  secret : Secret
  underCurrentKey : Bool
deriving DecidableEq

def encryptSecret (secret : Secret) : Sealed := ⟨secret,true⟩

def decryptSecret (enc : Sealed) : Option Secret := if enc.underCurrentKey then some enc.secret else none

structure CredentialRefresh where
  refreshTokenEnc : Option Sealed
  accountType : Option String
  clientRef : Option String
  grantedScopes : Option (List String)
  refreshFailedAt : Option Int
  refreshError : Option String
  orgId : Option String
deriving DecidableEq

-- The fingerprint of a secret is its hash, kept as the secret itself.
structure KeychainCredential where
  id : CredId
  ownerId : String
  service : String
  kind : CredentialKind
  envKey : Option String
  fields : Option (List CredentialFieldMeta)
  targets : Option (List String)
  host : Option String
  broker : Option BrokerDelivery
  refresh : Option CredentialRefresh
  managed : Bool
  secretEnc : Option Sealed
  fingerprint : Option Secret
  expiresAt : Option Int
  createdAt : Int
  updatedAt : Int
deriving DecidableEq

def trimmed (s : String) : String := String.ofList (trim s.toList)

end CompanyBrain.Credentials
