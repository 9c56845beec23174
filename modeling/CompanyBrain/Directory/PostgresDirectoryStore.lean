import CompanyBrain.Directory.DirectoryStore
import CompanyBrain.Foundations.JsText
import Mathlib.Data.List.Lex
import Mathlib.Data.List.Sort

namespace CompanyBrain.Directory

open Foundations

structure ChannelRow where
  channelId : String
  name : String
  isPrivate : Bool

def channelRow (c : DirectoryChannel) : ChannelRow := ⟨c.channelId,c.name,c.isPrivate = some true⟩

def ChannelRow.channel (r : ChannelRow) : DirectoryChannel := ⟨r.channelId,r.name,some r.isPrivate⟩

structure SyncRow (δ : Type) where
  membersHash : Option δ
  channelsHash : Option δ
  groupsHash : Option δ
  channelMembersSynced : Bool

structure PostgresDirectory (δ : Type) where
  members : List DirectoryMember
  channels : List ChannelRow
  channelMembers : List Membership
  groupMembers : List Membership
  sync : Option (SyncRow δ)

def unitsLe (s t : Text) : Bool := decide (s.flatMap utf16Units ≤ t.flatMap utf16Units)

def sortTexts (rows : List Text) : List Text := rows.insertionSort fun s t => unitsLe s t

def memberText (m : DirectoryMember) : Text :=
  joinWith ['|'] [m.principalId.toList,m.displayName.toList,
    match m.type with | .internal => "internal".toList | .guest => "guest".toList,(m.slackId.getD "").toList]

def channelText (c : ChannelRow) : Text :=
  c.channelId.toList ++ '|' :: (c.name.toList ++ '|' :: [if c.isPrivate then '1' else '0'])

def membershipText (m : Membership) : Text := m.1.toList ++ '|' :: m.2.toList

def channelMembershipText (m : Membership) : Text := 'm' :: ':' :: membershipText m

def membersKnown : Text := "members:known".toList

def membersPart : Option (List Membership) → List Text
  | none => []
  | some rows => membersKnown :: rows.map channelMembershipText

def channelsRoster (channels : List ChannelRow) (rows : Option (List Membership)) : List Text :=
  channels.map channelText ++ membersPart rows

def dedupPairs (rows : List Membership) : List Membership :=
  rows.foldl (fun out r => if r.1 = "" || r.2 = "" || out.contains r then out else out ++ [r]) []

def byPrincipal (members : List DirectoryMember) : Table DirectoryMember.principalId :=
  (keptMembers members).foldl Table.set .empty

def byChannel (channels : List DirectoryChannel) : Table DirectoryChannel.channelId :=
  (keptChannels channels).foldl Table.set .empty

namespace PostgresDirectory

variable {δ : Type} [DecidableEq δ] (hash : Text → δ)

def hashRoster (rows : List Text) : δ := hash (joinWith ['\n'] (sortTexts rows))

def create : PostgresDirectory δ := ⟨[],[],[],[],none⟩

section

variable (p : PostgresDirectory δ) (channels : List DirectoryChannel) (channelMembers : Option (List Membership))

def writeSync (set : SyncRow δ → SyncRow δ) : PostgresDirectory δ :=
  {p with sync := some (set (p.sync.getD ⟨none,none,none,false⟩))}

def swapIfChanged (hashCol : SyncRow δ → Option δ)
    (setHash : SyncRow δ → SyncRow δ) (hash : δ) (write : PostgresDirectory δ → PostgresDirectory δ) :
    PostgresDirectory δ :=
  if p.sync.bind hashCol = some hash then p else (write p).writeSync setHash

def replace (members : List DirectoryMember) : PostgresDirectory δ :=
  let internal := (byPrincipal members).rows
  let digest := hashRoster hash (internal.map memberText)
  p.swapIfChanged SyncRow.membersHash (fun row => {row with membersHash := some digest}) digest
    fun p => {p with members := internal}

def replaceChannels : PostgresDirectory δ :=
  let list := (byChannel channels).rows.map channelRow
  let membershipRows := channelMembers.map dedupPairs
  let digest := hashRoster hash (channelsRoster list membershipRows)
  let swapped := p.swapIfChanged SyncRow.channelsHash (fun row => {row with channelsHash := some digest}) digest
    fun p => {p with channels := list, channelMembers := membershipRows.getD p.channelMembers}
  if membershipRows.isSome then
    {swapped with sync := swapped.sync.map fun row => {row with channelMembersSynced := true}}
  else swapped

def replaceGroups (groupMembers : List Membership) : PostgresDirectory δ :=
  let rows := dedupPairs groupMembers
  let digest := hashRoster hash (rows.map membershipText)
  p.swapIfChanged SyncRow.groupsHash (fun row => {row with groupsHash := some digest}) digest
    fun p => {p with groupMembers := rows}

def upsertGroup (groupId : String) (principalIds : List String) : PostgresDirectory δ :=
  let ids := (principalIds.filter (· ≠ "")).eraseDups
  if groupId = "" || ids.isEmpty then p
  else
    let all := p.groupMembers.filter (fun r => r.1 ≠ groupId) ++ ids.map fun id => (groupId,id)
    let digest := hashRoster hash (all.map membershipText)
    {p with groupMembers := all}.writeSync fun row => {row with groupsHash := some digest}

def exec : DirectoryCall → PostgresDirectory δ
  | .replace members => p.replace hash members
  | .replaceChannels channels channelMembers => p.replaceChannels hash channels channelMembers
  | .replaceGroups groupMembers => p.replaceGroups hash groupMembers
  | .upsertGroup groupId principalIds => p.upsertGroup hash groupId principalIds

end

omit [DecidableEq δ]

variable (p : PostgresDirectory δ)

def channelMember (channelId principalId : String) : Bool := p.channelMembers.contains (channelId,principalId)

def findChannel (channelId : String) : Option ChannelRow := p.channels.find? fun c => c.channelId = channelId

def channelMembership (channelId principalId : String) : Option Bool :=
  let member := p.channelMember channelId principalId
  let isPrivate := (p.findChannel channelId).any ChannelRow.isPrivate
  let synced := p.sync.any SyncRow.channelMembersSynced
  if member || (isPrivate && synced) then some member else none

def channelPrivacy (channelId : String) : Option Bool := (p.findChannel channelId).map ChannelRow.isPrivate

def groupMember (groupId principalId : String) : Bool := p.groupMembers.contains (groupId,principalId)

def groupMembership (groupId principalId : String) : Option Bool :=
  if p.sync.any fun row => row.groupsHash.isSome then some (p.groupMember groupId principalId) else none

-- Both lists in the order of the table, not in the order the statements ask for.
def listGroupsFor (principalId : String) : List String :=
  (p.groupMembers.filter fun r => r.2 = principalId).map Prod.fst

def listChannelsFor (principalId : String) : List DirectoryChannel :=
  (p.channels.filter fun c => !c.isPrivate || p.channelMember c.channelId principalId).map ChannelRow.channel

end PostgresDirectory

end CompanyBrain.Directory
