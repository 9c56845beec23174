import CompanyBrain.Directory.DirectoryStore
import CompanyBrain.Directory.Person

namespace CompanyBrain.Directory

open Foundations

variable (letters : Letters)

def personKeys (member : Option DirectoryMember) (rawId : String) : List Text :=
  [some rawId,member.map (·.principalId),member.bind (·.slackId)].filterMap fun id =>
    let key := personKey letters (id.getD "")
    if key = [] then none else some key

def samePersonInDirectory (get : String → Option DirectoryMember) (a b : String) : Bool :=
  if samePerson letters a b then true
  else if personKey letters a = [] || personKey letters b = [] then false
  else
    let bKeys := personKeys letters (get b) b
    (personKeys letters (get a) a).any fun key => bKeys.contains key

def samePersonMatcher (get : String → Option DirectoryMember) (actorId : String) : String → Bool :=
  let row := get actorId
  let keys := personKeys letters row actorId
  fun id =>
    if keys.contains (personKey letters id) then true
    else if row.isSome then false
    else samePersonInDirectory letters get id actorId

def get (members : List DirectoryMember) (principalId : String) : Option DirectoryMember :=
  members.find? fun m => samePerson letters m.principalId principalId

def Names (m : DirectoryMember) (key : Text) : Prop :=
  key ≠ [] ∧ (key = personKey letters m.principalId ∨ ∃ id ∈ m.slackId, key = personKey letters id)

def Distinct (members : List DirectoryMember) : Prop :=
  ∀ m ∈ members, ∀ m' ∈ members, ∀ key, Names letters m key → Names letters m' key → m = m'

def Alike (members : List DirectoryMember) (a b : String) : Prop :=
  personKey letters a = personKey letters b ∨
    ∃ m ∈ members, Names letters m (personKey letters a) ∧ Names letters m (personKey letters b)

variable {letters} {members : List DirectoryMember} {m : DirectoryMember} {a b : String} {key : Text}

theorem mem_personKeys {row : Option DirectoryMember} :
    key ∈ personKeys letters row a ↔ key ≠ [] ∧ key = personKey letters a ∨ ∃ m, row = some m ∧
      Names letters m key := by
  have blank : personKey letters "" = [] := by simp [personKey,trim]
  have kept (id : Option String) :
      (if personKey letters (id.getD "") = [] then none else some (personKey letters (id.getD ""))) = some key ↔
        key ≠ [] ∧ ∃ i ∈ id, key = personKey letters i := by
    cases id with
    | none => simp [blank]
    | some i => grind
  simp only [personKeys,List.mem_filterMap,List.mem_cons,kept,exists_eq_or_imp]
  cases row with
  | none => simp
  | some m => simp [Names,← and_or_left]

theorem get_names (found : get letters members a = some m) :
    m ∈ members ∧ personKey letters m.principalId = personKey letters a ∧ Names letters m (personKey letters a) := by
  have same := List.find?_some found
  simp only [samePerson,Bool.and_eq_true,decide_eq_true_eq] at same
  exact ⟨List.mem_of_find?_eq_some found,same.2,same.2 ▸ same.1,.inl same.2.symm⟩

theorem Alike.symm (alike : Alike letters members a b) : Alike letters members b a :=
  alike.imp Eq.symm fun ⟨m,mem,ofA,ofB⟩ => ⟨m,mem,ofB,ofA⟩

section

variable (distinct : Distinct letters members)
include distinct

theorem alike_trans {c : String} (ab : Alike letters members a b) (bc : Alike letters members b c) :
    Alike letters members a c := by
  rcases ab with same | ⟨m,mem,ofA,ofB⟩
  · rwa [Alike,same]
  · rcases bc with same | ⟨m',mem',ofB',ofC⟩
    · exact .inr ⟨m,mem,ofA,same ▸ ofB⟩
    · rw [← distinct m mem m' mem' _ ofB ofB'] at ofC
      exact .inr ⟨m,mem,ofA,ofC⟩

theorem get_of_principal (mem : m ∈ members) (named : Names letters m (personKey letters a))
    (principal : personKey letters a = personKey letters m.principalId) : get letters members a = some m := by
  cases found : get letters members a with
  | none =>
    have missed := List.find?_eq_none.mp found m mem
    exact absurd (by simp [samePerson,← principal,named.1]) missed
  | some m' =>
    obtain ⟨mem',-,named'⟩ := get_names found
    rw [distinct m' mem' m mem _ named' named]

theorem alike_of_meet (ofA : key ∈ personKeys letters (get letters members a) a)
    (ofB : key ∈ personKeys letters (get letters members b) b) : Alike letters members a b := by
  rw [mem_personKeys] at ofA ofB
  grind [Alike,Distinct,→ get_names]

theorem meet_of_alike (differ : personKey letters a ≠ personKey letters b) (alike : Alike letters members a b) :
    ∃ key ∈ personKeys letters (get letters members a) a, key ∈ personKeys letters (get letters members b) b := by
  obtain ⟨m,mem,ofA,ofB⟩ := alike.resolve_left differ
  simp only [mem_personKeys]
  rcases ofA.2 with principal | ⟨id,chat,same⟩
  · exact ⟨_,.inr ⟨m,get_of_principal distinct mem ofA principal,ofB⟩,.inl ⟨ofB.1,rfl⟩⟩
  · rcases ofB.2 with principal | ⟨id',chat',same'⟩
    · exact ⟨_,.inl ⟨ofA.1,rfl⟩,.inr ⟨m,get_of_principal distinct mem ofB principal,ofA⟩⟩
    · rw [Option.mem_unique chat chat'] at same
      exact absurd (same.trans same'.symm) differ

theorem samePersonInDirectory_iff : samePersonInDirectory letters (get letters members) a b ↔
    personKey letters a ≠ [] ∧ Alike letters members a b := by
  have meet : personKey letters a ≠ personKey letters b → ((∃ key ∈ personKeys letters (get letters members a) a,
      key ∈ personKeys letters (get letters members b) b) ↔ Alike letters members a b) := fun differ =>
    ⟨fun ⟨_,ofA,ofB⟩ => alike_of_meet distinct ofA ofB,meet_of_alike distinct differ⟩
  simp only [samePersonInDirectory,samePerson]
  grind [Alike,Names]

theorem matcher_agrees (actorId id : String) : samePersonMatcher letters (get letters members) actorId id =
    samePersonInDirectory letters (get letters members) id actorId := by
  have same := samePersonInDirectory_iff distinct (a := id) (b := actorId)
  simp only [samePersonMatcher]
  cases found : get letters members actorId with
  | none => grind [Alike,mem_personKeys]
  | some m =>
    obtain ⟨mem,-,own⟩ := get_names found
    grind [Alike,Distinct,Names,mem_personKeys]

theorem samePersonInDirectory_equivalence :
    (Equivalence fun a b : {id : String // personKey letters id ≠ []} =>
      samePersonInDirectory letters (get letters members) a b) ∧
    ∀ actorId id, samePersonMatcher letters (get letters members) actorId id =
      samePersonInDirectory letters (get letters members) id actorId := by
  refine ⟨⟨fun a => ?_,fun {a b} same => ?_,fun {a b c} same same' => ?_⟩,matcher_agrees distinct⟩
  · exact (samePersonInDirectory_iff distinct).mpr ⟨a.2,.inl rfl⟩
  · have alike := ((samePersonInDirectory_iff distinct).mp same).2
    exact (samePersonInDirectory_iff distinct).mpr ⟨b.2,alike.symm⟩
  · have alike := ((samePersonInDirectory_iff distinct).mp same).2
    have alike' := ((samePersonInDirectory_iff distinct).mp same').2
    exact (samePersonInDirectory_iff distinct).mpr ⟨a.2,alike_trans distinct alike alike'⟩

end

def ada : DirectoryMember := ⟨"ada@x.co","Ada",.internal,some "U1"⟩

def bea : DirectoryMember := ⟨"bea@x.co","Bea",.internal,some "U2"⟩

theorem ada_matched : let get := get ⟨fun t => t⟩ [ada,bea]
    (Equivalence fun a b : {id : String // personKey ⟨fun t => t⟩ id ≠ []} =>
      samePersonInDirectory ⟨fun t => t⟩ get a b) ∧
    (∀ id, samePersonMatcher ⟨fun t => t⟩ get "U1" id = samePersonInDirectory ⟨fun t => t⟩ get id "U1") ∧
    samePersonInDirectory ⟨fun t => t⟩ get "ada@x.co" "U1" = true ∧
    samePersonInDirectory ⟨fun t => t⟩ get "ada@x.co" "U2" = false := by
  have distinct : Distinct ⟨fun t => t⟩ [ada,bea] := by
    have apart : ∀ key, Names ⟨fun t => t⟩ ada key → ¬Names ⟨fun t => t⟩ bea key := by
      rintro key ⟨_,rfl | ⟨_,⟨⟩,rfl⟩⟩ ⟨_,same | ⟨_,⟨⟩,same⟩⟩ <;> exact absurd same (by decide +kernel)
    simp only [Distinct,List.forall_mem_cons]
    refine ⟨⟨fun _ _ _ => trivial,fun key mine hers => absurd hers (apart key mine),nofun⟩,
      ⟨fun key hers mine => absurd hers (apart key mine),fun _ _ _ => trivial,nofun⟩,nofun⟩
  have same := samePersonInDirectory_equivalence distinct
  exact ⟨same.1,same.2 "U1",by decide +kernel,by decide +kernel⟩

end CompanyBrain.Directory
