import CompanyBrain.Foundations.JsText

namespace CompanyBrain.Directory

open Foundations

structure Letters where
  toLowerCase : Text → Text

def personKey (letters : Letters) (id : String) : Text :=
  let s := trim id.toList
  if s.contains '@' then letters.toLowerCase s else s

def samePerson (letters : Letters) (a b : String) : Bool :=
  let key := personKey letters a
  key ≠ [] && key = personKey letters b

theorem samePerson_empty (letters : Letters) (b : String) : samePerson letters "" b = false := by
  simp [samePerson,personKey,trim]

end CompanyBrain.Directory
