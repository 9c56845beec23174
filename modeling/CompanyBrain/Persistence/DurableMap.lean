import CompanyBrain.Foundations.Json
import CompanyBrain.Foundations.Table
import Mathlib.Data.List.Sort

namespace CompanyBrain.Persistence

open Foundations

abbrev JsonObject := Table (Prod.fst : String × Json → String)

abbrev Rows := Table (Prod.fst : String × JsonObject → String)

abbrev Patch := Table (Prod.fst : String × Option Json → String)

structure Db where
  rows : Rows
  version : Option Nat

inductive Write where
  | put (id : String) (value : JsonObject)
  | putIfAbsent (id : String) (value : JsonObject)
  | insertIfAbsent (id : String) (value : JsonObject)
  | merge (id : String) (patch : Patch)
  | update (id : String) (fn : JsonObject → JsonObject)
  | deleteIf (id : String) (predicate : JsonObject → Bool)
  | delete (id : String)
  | take (id : String)

inductive Answer where
  | done
  | value (value : Option JsonObject)
  | flag (flag : Bool)

def get (rows : Rows) (id : String) : Option JsonObject := (rows.find? id).map (·.2)

def removeKeys (patch : Patch) : List String := patch.rows.filterMap fun f => if f.2.isNone then some f.1 else none

def setFields (patch : Patch) : List (String × Json) := patch.rows.filterMap fun f => f.2.map (f.1,·)

def mergeJson (json : JsonObject) (patch : Patch) : JsonObject :=
  (setFields patch).foldl Table.set ((removeKeys patch).foldl Table.erase json)

def Write.run (rows : Rows) : Write → Rows × Answer
  | put id value => (rows.set (id,value),.done)
  | putIfAbsent id value =>
    match get rows id with
    | some existing => (rows,.value (some existing))
    | none => (rows.set (id,value),.value (some value))
  | insertIfAbsent id value =>
    match get rows id with
    | some _ => (rows,.flag false)
    | none => (rows.set (id,value),.flag true)
  | merge id patch =>
    match get rows id with
    | none => (rows,.value none)
    | some json => (rows.set (id,mergeJson json patch),.value (some (mergeJson json patch)))
  | update id fn =>
    match get rows id with
    | none => (rows,.value none)
    | some json => (rows.set (id,fn json),.value (some (fn json)))
  | deleteIf id predicate =>
    match get rows id with
    | none => (rows,.flag false)
    | some json => if predicate json then (rows.erase id,.flag true) else (rows,.flag false)
  | delete id => (rows.erase id,.done)
  | take id => (rows.erase id,.value (get rows id))

def bump : Option Nat → Option Nat
  | none => some 1
  | some v => some (v+1)

-- The version is bumped in the transaction of the write, so both are committed at once.
def Db.withBump (db : Db) (w : Write) : Db × Answer :=
  let (rows,answer) := w.run db.rows
  (⟨rows,bump db.version⟩,answer)

variable (idLe : String → String → Bool)

def Db.select (db : Db) : List (String × JsonObject) := db.rows.rows.insertionSort fun a b => idLe a.1 b.1

end CompanyBrain.Persistence
