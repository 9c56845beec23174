import CompanyBrain.Foundations.JsText

namespace CompanyBrain.Foundations.Shell

inductive Frame where
  | plain | double | brace | tick
deriving DecidableEq

inductive Mode where
  | text | single | escape | dollar | name
deriving DecidableEq

structure Reader where
  frames : List Frame
  mode : Mode
deriving DecidableEq

inductive Role where
  | literal | quote | special | operator | word
deriving DecidableEq

def home : Reader := ⟨[],.text⟩

def isNameChar (c : Char) : Bool := c.isAlphanum || c == '_'

def isParameter (c : Char) : Bool := c ∈ ['@','*','#','?','-','$','!']

def isEscapable (c : Char) : Bool := c ∈ ['$','`','"','\\','\n']

def startsExpansion (c : Char) : Bool := c = '(' || c = '{' || isNameChar c || isParameter c

def readPlain (frames : List Frame) (c : Char) : Role × Reader :=
  if c = '\'' then (.quote,⟨frames,.single⟩)
  else if c = '"' then (.quote,⟨.double :: frames,.text⟩)
  else if c = '\\' then (.special,⟨frames,.escape⟩)
  else if c = '$' then (.special,⟨frames,.dollar⟩)
  else if c = '`' then (.special,⟨.tick :: frames,.text⟩)
  else if c = '(' then (.operator,⟨.plain :: frames,.text⟩)
  else if c = ')' then (.operator,⟨frames.tail,.text⟩)
  else if c ∈ [' ','\t','\n',';','&','|','<','>'] then (.operator,⟨frames,.text⟩)
  else (.word,⟨frames,.text⟩)

def readDouble (up : List Frame) (c : Char) : Role × Reader :=
  if c = '"' then (.quote,⟨up,.text⟩)
  else if c = '\\' then (.special,⟨.double :: up,.escape⟩)
  else if c = '$' then (.special,⟨.double :: up,.dollar⟩)
  else if c = '`' then (.special,⟨.tick :: .double :: up,.text⟩)
  else (.literal,⟨.double :: up,.text⟩)

def readText : List Frame → Char → Role × Reader
  | .double :: up, c => readDouble up c
  | .brace :: up, c => if c = '}' then (.special,⟨up,.text⟩) else (.special,(readPlain (.brace :: up) c).2)
  | .tick :: up, c => if c = '`' then (.special,⟨up,.text⟩) else readPlain (.tick :: up) c
  | frames, c => readPlain frames c

def Reader.read (r : Reader) (c : Char) : Role × Reader :=
  match r.mode with
  | .text => readText r.frames c
  | .single => if c = '\'' then (.quote,⟨r.frames,.text⟩) else (.literal,r)
  | .escape =>
    if r.frames.head? = some .double ∧ isEscapable c = false then readText r.frames c
    else (if c = '\n' then .special else .literal,⟨r.frames,.text⟩)
  | .dollar =>
    if c = '(' then (.special,⟨.plain :: r.frames,.text⟩)
    else if c = '{' then (.special,⟨.brace :: r.frames,.text⟩)
    else if isNameChar c then (.special,⟨r.frames,.name⟩)
    else if isParameter c then (.special,⟨r.frames,.text⟩)
    else readText r.frames c
  | .name => if isNameChar c then (.special,r) else readText r.frames c

-- Between double quotes a backslash or a dollar sign is special only before certain characters.
def Reader.role (r : Reader) (c : Char) (next : Option Char) : Role :=
  match (r.read c).2 with
  | ⟨.double :: _,.escape⟩ => if next.any isEscapable then .special else .literal
  | ⟨.double :: _,.dollar⟩ => if next.any startsExpansion then .special else .literal
  | _ => (r.read c).1

abbrev Marked := List (Char × Bool)

def template (t : Text) : Marked := t.map fun c => (c,false)

def data (t : Text) : Marked := t.map fun c => (c,true)

def Marked.text (m : Marked) : Text := m.map Prod.fst

def final (r : Reader) (t : Text) : Reader := t.foldl (fun r c => (r.read c).2) r

def Literal (r : Reader) : Marked → Prop
  | [] => True
  | (c,isData) :: m => (isData = true → r.role c (m.head?.map Prod.fst) = .literal) ∧ Literal (r.read c).2 m

instance decidableLiteral (r : Reader) : (m : Marked) → Decidable (Literal r m)
  | [] => .isTrue trivial
  | (c,_) :: m => @instDecidableAnd _ _ inferInstance (decidableLiteral (r.read c).2 m)

structure Reads (r : Reader) (m : Marked) (ok : Prop) (r' : Reader) : Prop where
  literal_iff : ∀ rest, Literal r (m ++ rest) ↔ ok ∧ Literal r' rest
  final : ok → final r m.text = r'

section

variable {r r' r'' : Reader} {m m' : Marked} {ok ok' : Prop}

theorem Marked.text_append (m m' : Marked) : Marked.text (m ++ m') = m.text ++ m'.text := List.map_append

@[simp] theorem text_template (t : Text) : (template t).text = t := by
  simp [template,Marked.text,Function.comp_def]

@[simp] theorem text_data (t : Text) : (data t).text = t := by
  simp [data,Marked.text,Function.comp_def]

theorem final_append (r : Reader) (t u : Text) : final r (t ++ u) = final (final r t) u := List.foldl_append

theorem Reads.literal (reads : Reads r m ok r') : Literal r m ↔ ok := by
  have whole := reads.literal_iff []
  rw [List.append_nil] at whole
  exact whole.trans (and_iff_left trivial)

theorem Reads.congr (reads : Reads r m ok r') (same : ok ↔ ok') : Reads r m ok' r' :=
  ⟨fun rest => by rw [reads.literal_iff,same],fun holds => reads.final (same.mpr holds)⟩

theorem Reads.append (first : Reads r m ok r') (second : Reads r' m' ok' r'') : Reads r (m ++ m') (ok ∧ ok') r'' where
  literal_iff rest := by rw [List.append_assoc,first.literal_iff,second.literal_iff,and_assoc]
  final := by
    rintro ⟨here,later⟩
    rw [Marked.text_append,final_append,first.final here,second.final later]

theorem reads_template {t : Text} (last : Shell.final r t = r') : Reads r (template t) True r' := by
  refine ⟨fun rest => ?_,fun _ => by rw [text_template]; exact last⟩
  rw [true_and]
  induction t generalizing r with
  | nil =>
    cases last
    exact Iff.rfl
  | cons c t ih => exact (and_iff_right nofun).trans (ih last)

theorem Reads.between {before after : Text} (enter : Shell.final r before = r') (inside : Reads r' m ok r'')
    (leave : Shell.final r'' after = r) : Reads r (template before ++ m ++ template after) ok r :=
  (((reads_template enter).append inside).append (reads_template leave)).congr (by simp)

end

-- `inert next t` holds of a text between double quotes, with `next` right after it, that stands for itself.
def inertBefore (next c : Char) : Bool :=
  c ≠ '"' && c ≠ '`' && (c ≠ '$' || !startsExpansion next) && (c ≠ '\\' || !isEscapable next)

def inert (next : Char) : Text → Bool
  | [] => true
  | c :: t => inertBefore (t.headD next) c && inert next t

section

variable {up : List Frame} {next c : Char}

theorem role_quoted {r : Reader} (same : r.read c = Reader.read ⟨.double :: up,.text⟩ c) :
    r.role c (some next) = .literal ↔ inertBefore next c = true := by
  unfold Reader.role
  rw [same]
  simp only [Reader.read,readText,readDouble,inertBefore]
  grind

theorem read_after (kept : inertBefore next c = true) :
    (Reader.read ⟨.double :: up,.text⟩ c).2.read next = Reader.read ⟨.double :: up,.text⟩ next := by
  simp only [inertBefore,startsExpansion] at kept
  simp only [Reader.read,readText,readDouble]
  grind

theorem reads_double {r : Reader} {t u : Text}
    (same : r.read (t.headD next) = Reader.read ⟨.double :: up,.text⟩ (t.headD next)) :
    Reads r (data t ++ template (next :: u)) (inert next t) (final ⟨.double :: up,.text⟩ (next :: u)) := by
  induction t generalizing r with
  | nil =>
    have reached : final r (next :: u) = final ⟨.double :: up,.text⟩ (next :: u) :=
      congrArg (fun read => final read.2 u) same
    exact (reads_template reached).congr (by simp [inert])
  | cons c t ih =>
    have read : r.read c = Reader.read ⟨.double :: up,.text⟩ c := same
    have first (rest : Marked) : Literal r (data (c :: t) ++ template (next :: u) ++ rest) ↔
        inertBefore (t.headD next) c = true ∧ Literal (r.read c).2 (data t ++ template (next :: u) ++ rest) := by
      have following : ((data t ++ template (next :: u) ++ rest).head?.map Prod.fst) = some (t.headD next) := by
        cases t <;> rfl
      rw [← role_quoted read,← following]
      exact and_congr_left' (forall_prop_of_true rfl)
    rw [inert,Bool.and_eq_true]
    by_cases here : inertBefore (t.headD next) c = true
    · have later := ih (r := (r.read c).2) (by rw [read]; exact read_after here)
      exact ⟨fun rest => by rw [first,later.literal_iff,and_assoc],fun ok => later.final ok.2⟩
    · refine ⟨fun rest => (first rest).trans ?_,fun ok => absurd ok.1 here⟩
      exact iff_of_false (fun ok => here ok.1) fun ok => here ok.1.1

end

theorem reads_char {r r' : Reader} {c : Char} (read : r.read c = (.literal,r')) (settled : r'.frames = []) :
    Reads r (data [c]) True r' := by
  have role (next : Option Char) : r.role c next = .literal := by
    obtain ⟨frames,mode⟩ := r'
    cases settled
    simp [Reader.role,read]
  refine ⟨fun rest => ?_,fun _ => congrArg Prod.snd read⟩
  have here : Literal r (data [c] ++ rest) ↔ (true = true → r.role c (rest.head?.map Prod.fst) = .literal) ∧
      Literal (r.read c).2 rest := Iff.rfl
  rw [here,role,read]
  simp

def quoteMarked (t : Text) : Marked :=
  template ['\''] ++ t.flatMap (fun c => if c = '\'' then template ['\'','\\'] ++ data [c] ++
    template ['\''] else data [c]) ++
    template ['\'']

theorem reads_quoted (t : Text) : Reads home (quoteMarked t) True home := by
  have inside : Reads ⟨[],.single⟩ (t.flatMap fun c =>
      if c = '\'' then template ['\'','\\'] ++ data [c] ++ template ['\''] else data [c]) True ⟨[],.single⟩ := by
    induction t with
    | nil => exact ⟨by simp,fun _ => rfl⟩
    | cons c t ih =>
      rw [List.flatMap_cons]
      refine (Reads.append ?_ ih).congr and_self_iff
      split
      next quote =>
        have escaped : Reads ⟨[],.escape⟩ (data [c]) True home := reads_char (by rw [quote]; rfl) rfl
        exact escaped.between rfl rfl
      next other => exact reads_char (by simp [Reader.read,other]) rfl
  exact inside.between rfl rfl

def joinLines (lines : List Marked) : Marked := List.intercalate (template ['\n']) lines ++ template ['\n']

theorem joinLines_cons (m m' : Marked) (lines : List Marked) :
    joinLines (m :: m' :: lines) = m ++ template ['\n'] ++ joinLines (m' :: lines) := by
  simp [joinLines]

theorem reads_lines {lines : List Marked} (reads : ∀ m ∈ lines, ∃ ok, Reads home m ok home) :
    Reads home (joinLines lines) (∀ m ∈ lines, Literal home m) home := by
  have newline : Reads home (template ['\n']) True home := reads_template rfl
  induction lines with
  | nil => exact newline.congr (by simp)
  | cons m lines ih =>
    obtain ⟨⟨ok,first⟩,reads⟩ := List.forall_mem_cons.mp reads
    rw [List.forall_mem_cons,first.literal]
    cases lines with
    | nil => simpa [joinLines] using first.append newline
    | cons =>
      rw [joinLines_cons]
      exact ((first.append newline).append (ih reads)).congr (by simp)

end CompanyBrain.Foundations.Shell
