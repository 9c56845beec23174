import CompanyBrain.Credentials.Keychain
import CompanyBrain.Foundations.ShellQuoting
import Mathlib.Data.List.DropRight
import Mathlib.Data.List.Infix

namespace CompanyBrain.Credentials

open Foundations Foundations.Shell

-- The script is built with its data characters marked; the text that is run is `(renderUseScript m).text`.
def shq (s : Text) : Marked := quoteMarked s

inductive PathPattern where
  | ends (tails : List Text)
  | sshKey
deriving DecidableEq

def PathPattern.test : PathPattern → Text → Bool
  | .ends tails, path => tails.any fun tail => path = tail || decide (('/' :: tail) <:+ path)
  | .sshKey, path =>
    match (path.splitOn '/').reverse with
    | name :: dir :: _ => dir = ".ssh".toList && (decide ("id_".toList <:+: name) || decide ("key".toList <:+: name))
    | _ => false

structure FilePointer where
  pattern : PathPattern
  before : Text
  strip : Text
  after : Text
deriving DecidableEq

def pointTo (tail var : String) : FilePointer :=
  ⟨.ends [tail.toList],("export " ++ var ++ "=\"").toList,[],['"']⟩

def pointToDir (tails : List String) (name var : String) : FilePointer :=
  ⟨.ends (tails.map fun dir => (dir ++ name).toList),("export " ++ var ++ "=\"").toList,name.toList,['"']⟩

def fileEnvPointers : List FilePointer :=
  [pointTo ".aws/credentials" "AWS_SHARED_CREDENTIALS_FILE",
  pointTo ".aws/config" "AWS_CONFIG_FILE",
  pointTo ".kube/config" "KUBECONFIG",
  pointToDir [".config/gh"] "/hosts.yml" "GH_CONFIG_DIR",
  pointToDir [".config/glab-cli",".config/glab","Library/Application Support/glab-cli"] "/config.yml"
    "GLAB_CONFIG_DIR",
  pointToDir [".docker"] "/config.json" "DOCKER_CONFIG",
  pointTo ".npmrc" "NPM_CONFIG_USERCONFIG",
  pointTo ".netrc" "NETRC",
  ⟨.sshKey,"export GIT_SSH_COMMAND=\"ssh -i ".toList,[]," -o IdentitiesOnly=yes\"".toList⟩]

def stripEnd (strip : Text) (m : Marked) : Marked :=
  if strip <:+ m.text then m.take (m.length - strip.length) else m

def FilePointer.render (p : FilePointer) (abs : Marked) : Marked :=
  template p.before ++ stripEnd p.strip abs ++ template p.after

def inDir (path : Text) : Marked := template "$__kc_dir/".toList ++ data path

def parentOf (path : Text) : Text :=
  if '/' ∈ path then (path.rdropWhile (· ≠ '/')).dropLast else []

def mkdirLines (parent : Text) : List Marked :=
  if parent = [] then [] else [template "mkdir -p \"".toList ++ inDir parent ++ template ['"']]

def fileLines (f : CredentialFile) : List Marked :=
  mkdirLines (parentOf f.path.toList) ++
    [template "printf '%s' ".toList ++ shq f.contentBase64.toList ++
        template " | base64 -d > \"".toList ++ inDir f.path.toList ++ template ['"'],
      template "chmod 600 \"".toList ++ inDir f.path.toList ++ template ['"']]

def addPointer (path : Text) (pointed : List (FilePointer × Text)) (p : FilePointer) : List (FilePointer × Text) :=
  if p.pattern.test path && p ∉ pointed.map Prod.fst then pointed ++ [(p,path)] else pointed

def addPointers (pointed : List (FilePointer × Text)) (f : CredentialFile) : List (FilePointer × Text) :=
  fileEnvPointers.foldl (addPointer f.path.toList) pointed

def pointerLines (files : List CredentialFile) : List Marked :=
  (files.foldl addPointers []).map fun x => x.1.render (inDir x.2)

def isPointed (f : CredentialFile) : Bool := fileEnvPointers.any fun p => p.pattern.test f.path.toList

def linkHome : Text :=
  ("for __e in \"$HOME\"/.[!.]* \"$HOME\"/*; do [ -e \"$__e\" ] || continue; __b=$\x7b__e##*/\x7d; " ++
    "[ -e \"$__kc_dir/$__b\" ] || ln -s \"$__e\" \"$__kc_dir/$__b\"; done").toList

def homeLines (files : List CredentialFile) : List Marked :=
  if files.any fun f => !isPointed f then
    [template linkHome,template "export HOME=\"$__kc_dir\"".toList]
  else []

def envLine (e : String × String) : Marked :=
  template "export ".toList ++ template e.1.toList ++ template ['='] ++ shq e.2.toList

def scriptLines (files : List CredentialFile) : List Marked :=
  [template "__kc_dir=\"$(mktemp -d \"$\x7bTMPDIR:-/tmp\x7d/keychain.XXXXXX\")\"".toList,template "umask 077".toList] ++
    files.flatMap fileLines ++ pointerLines files ++ homeLines files

def renderUseScript : MaterializedCred → Marked
  | .env _ _ _ env _ => joinLines (env.map envLine)
  | .file _ _ _ files _ => joinLines (scriptLines files)

-- The path as it stands in the script: before a double quote, and its parent before one.
def InertPath (path : Text) : Prop :=
  inert '"' path = true ∧ (parentOf path ≠ [] → inert '"' (parentOf path) = true)

instance decidableInertPath (path : Text) : Decidable (InertPath path) := inferInstanceAs (Decidable (_ ∧ (_ → _)))

section

variable {path : Text}

def quoted : Reader := ⟨[.double],.text⟩

theorem reads_inDir (before : Text) (path : Text) (next : Char) (after : Text)
    (enter : Shell.final home before = quoted) (leave : Shell.final quoted (next :: after) = home) :
    Reads home (template before ++ inDir path ++ template (next :: after)) (inert next path) home := by
  have dir : Reads quoted (template "$__kc_dir/".toList) True quoted := reads_template (by decide)
  have text : Reads quoted (data path ++ template (next :: after)) (inert next path) home := leave ▸ reads_double rfl
  have whole := ((reads_template enter).append dir).append text
  simpa [inDir,List.append_assoc] using whole

theorem reads_mkdirLines (parent : Text) : (∀ m ∈ mkdirLines parent, ∃ ok, Reads home m ok home) ∧
    ((∀ m ∈ mkdirLines parent, Literal home m) ↔ (parent ≠ [] → inert '"' parent = true)) := by
  unfold mkdirLines
  split
  next empty => simp [empty]
  next filled =>
    have reads := reads_inDir "mkdir -p \"".toList parent '"' [] (by decide) (by decide)
    simp only [List.forall_mem_singleton,reads.literal]
    exact ⟨⟨_,reads⟩,by simp [filled]⟩

theorem reads_fileLines (f : CredentialFile) : (∀ m ∈ fileLines f, ∃ ok, Reads home m ok home) ∧
    ((∀ m ∈ fileLines f, Literal home m) ↔ InertPath f.path.toList) := by
  obtain ⟨reads,mkdir⟩ := reads_mkdirLines (parentOf f.path.toList)
  have print : Reads home (template "printf '%s' ".toList) True home := reads_template (by decide)
  have path := reads_inDir " | base64 -d > \"".toList f.path.toList '"' [] (by decide) (by decide)
  have write := (print.append (reads_quoted f.contentBase64.toList)).append path
  have chmod := reads_inDir "chmod 600 \"".toList f.path.toList '"' [] (by decide) (by decide)
  have lines : fileLines f = mkdirLines (parentOf f.path.toList) ++
      [template "printf '%s' ".toList ++ shq f.contentBase64.toList ++
          (template " | base64 -d > \"".toList ++ inDir f.path.toList ++ template ['"']),
        template "chmod 600 \"".toList ++ inDir f.path.toList ++ template ['"']] := by
    simp [fileLines]
  rw [lines]
  simp only [List.forall_mem_append,List.forall_mem_cons]
  refine ⟨⟨reads,⟨_,write⟩,⟨_,chmod⟩,nofun⟩,?_⟩
  rw [mkdir,shq,write.literal,chmod.literal,InertPath]
  simp [and_comm]

def FilePointer.stripsTail (p : FilePointer) : Bool :=
  match p.pattern with
  | .ends tails => tails.all fun tail =>
      p.strip <:+ tail ∧ (p.strip = [] ∨ (tail.take (tail.length - p.strip.length)).getLast?.any (· ≠ '\\'))
  | .sshKey => p.strip = []

theorem FilePointer.strip_of_test {p : FilePointer} (strips : p.stripsTail) (applies : p.pattern.test path) :
    ∃ front, path = front ++ p.strip ∧ (p.strip = [] ∨ front.getLast? ≠ some '\\') := by
  unfold stripsTail at strips
  cases is : p.pattern with
  | ends =>
    rw [is] at strips applies
    obtain ⟨tail,mem,ends⟩ := List.any_eq_true.mp applies
    obtain ⟨⟨base,rfl⟩,last⟩ := of_decide_eq_true (List.all_eq_true.mp strips tail mem)
    obtain ⟨before,whole⟩ : ∃ before, path = before ++ base ++ p.strip := by
      simp only [Bool.or_eq_true,decide_eq_true_iff] at ends
      rcases ends with rfl | ⟨before,rfl⟩
      · exact ⟨[],rfl⟩
      · exact ⟨before ++ ['/'],by simp⟩
    refine ⟨_,whole,last.imp_right fun last => ?_⟩
    simp only [List.length_append,Nat.add_sub_cancel,List.take_left] at last
    cases found : base.getLast? with
    | none => simp [found] at last
    | some => simpa [List.getLast?_append,found] using last
  | sshKey =>
    rw [is] at strips
    exact ⟨path,by simp [of_decide_eq_true strips]⟩

theorem stripEnd_append (m : Marked) (strip : Text) : stripEnd strip (m ++ data strip) = m := by
  have ends : strip <:+ Marked.text (m ++ data strip) := by
    rw [Marked.text_append,text_data]
    exact List.suffix_append _ _
  have front : (m ++ data strip).length - strip.length = m.length := by simp [data]
  rw [stripEnd,if_pos ends,front,List.take_left]

theorem inDir_append (path path' : Text) : inDir (path ++ path') = inDir path ++ data path' := by
  simp [inDir,data]

theorem inert_front {front strip : Text} {next : Char} (closing : startsExpansion next = false)
    (whole : inert '"' (front ++ strip) = true) (last : strip = [] ∨ front.getLast? ≠ some '\\') :
    inert next front = true := by
  induction front with
  | nil => rfl
  | cons c front ih =>
    rw [List.cons_append,inert,Bool.and_eq_true] at whole
    rw [inert,Bool.and_eq_true]
    cases front with
    | nil =>
      refine ⟨?_,rfl⟩
      have here := whole.1
      have plain : c ≠ '\\' := by
        rintro rfl
        rcases last with rfl | last
        · exact absurd here (by decide)
        · exact last rfl
      simp only [inertBefore] at here ⊢
      simp_all
    | cons d front => exact ⟨whole.1,ih whole.2 (by simpa using last)⟩

theorem fileEnvPointers_quote : ∀ p ∈ fileEnvPointers, p.stripsTail ∧ Shell.final home p.before = quoted ∧
    Shell.final quoted p.after = home ∧ p.after.head?.any fun c => !startsExpansion c := by decide +kernel

theorem reads_render {p : FilePointer} (known : p ∈ fileEnvPointers) (applies : p.pattern.test path) :
    ∃ ok : Prop, Reads home (p.render (inDir path)) ok home ∧ (InertPath path → ok) := by
  obtain ⟨strips,enter,leave,closing⟩ := fileEnvPointers_quote p known
  obtain ⟨front,rfl,last⟩ := p.strip_of_test strips applies
  obtain ⟨pattern,before,strip,after⟩ := p
  cases after with
  | nil => cases closing
  | cons next after =>
    rw [FilePointer.render,inDir_append,stripEnd_append]
    exact ⟨_,reads_inDir before front next after enter leave,fun path =>
      inert_front (by simpa using closing) path.1 last⟩

end

def Pointed (files : List CredentialFile) (x : FilePointer × Text) : Prop :=
  x.1 ∈ fileEnvPointers ∧ x.1.pattern.test x.2 = true ∧ ∃ f ∈ files, x.2 = f.path.toList

section

variable {files : List CredentialFile}

theorem addPointer_pointed {f : CredentialFile} (mem : f ∈ files) {p : FilePointer} (known : p ∈ fileEnvPointers)
    {pointed : List (FilePointer × Text)} (before : ∀ x ∈ pointed, Pointed files x) :
    ∀ x ∈ addPointer f.path.toList pointed p, Pointed files x := by
  intro x found
  unfold addPointer at found
  split at found
  next applies =>
    rcases List.mem_append.mp found with old | new
    · exact before x old
    · rw [List.mem_singleton.mp new]
      exact ⟨known,(Bool.and_eq_true_iff.mp applies).1,f,mem,rfl⟩
  · exact before x found

theorem pointed_files : ∀ x ∈ files.foldl addPointers [], Pointed files x := by
  refine List.foldlRecOn files addPointers (motive := fun pointed => ∀ x ∈ pointed, Pointed files x) (by simp) ?_
  intro pointed before f mem
  exact List.foldlRecOn fileEnvPointers (addPointer f.path.toList)
    (motive := fun pointed => ∀ x ∈ pointed, Pointed files x) before
    fun _ before _ known => addPointer_pointed mem known before

theorem reads_pointerLines : ∀ m ∈ pointerLines files, ∃ ok, Reads home m ok home ∧
    ((∀ f ∈ files, InertPath f.path.toList) → ok) := by
  intro m mem
  obtain ⟨x,found,rfl⟩ := List.mem_map.mp mem
  obtain ⟨known,applies,f,given,is⟩ := pointed_files x found
  obtain ⟨ok,reads,holds⟩ := reads_render known applies
  exact ⟨ok,reads,fun paths => holds (is ▸ paths f given)⟩

theorem reads_homeLines : ∀ m ∈ homeLines files, Reads home m True home := by
  intro m mem
  unfold homeLines at mem
  split at mem
  · simp only [List.mem_cons,List.not_mem_nil,or_false] at mem
    rcases mem with is | is <;> rw [is]
    · exact reads_template (by decide +kernel)
    · exact reads_template (by decide)
  · cases mem

theorem reads_scriptLines : ∀ m ∈ scriptLines files, (∃ ok, Reads home m ok home) ∧
    ((∀ f ∈ files, InertPath f.path.toList) → Literal home m) := by
  intro m mem
  simp only [scriptLines,List.mem_append,List.mem_cons,List.not_mem_nil,or_false,List.mem_flatMap] at mem
  rcases mem with ((is | ⟨f,given,mem⟩) | mem) | mem
  · have reads : Reads home m True home := by
      rcases is with is | is <;> rw [is]
      · exact reads_template (by decide +kernel)
      · exact reads_template (by decide)
    exact ⟨⟨_,reads⟩,fun _ => reads.literal.mpr trivial⟩
  · obtain ⟨reads,literal⟩ := reads_fileLines f
    exact ⟨reads m mem,fun paths => literal.mpr (paths f given) m mem⟩
  · obtain ⟨ok,reads,holds⟩ := reads_pointerLines m mem
    exact ⟨⟨ok,reads⟩,fun paths => reads.literal.mpr (holds paths)⟩
  · have reads := reads_homeLines m mem
    exact ⟨⟨_,reads⟩,fun _ => reads.literal.mpr trivial⟩

theorem file_scripts_literal_iff (credentialId : CredId) (ownerId service : String) (files : List CredentialFile)
    (extra : Extra) :
    let script := renderUseScript (.file credentialId ownerId service files extra)
    Literal home script ∧ Shell.final home script.text = home ↔ ∀ f ∈ files, InertPath f.path.toList := by
  have reads := reads_lines fun m mem => (@reads_scriptLines files m mem).1
  constructor
  · rintro ⟨literal,_⟩ f given
    refine (reads_fileLines f).2.mp fun m mem => reads.literal.mp literal m ?_
    simp only [scriptLines,List.mem_append,List.mem_flatMap]
    exact .inl (.inl (.inr ⟨f,given,mem⟩))
  · intro paths
    have literal := fun m mem => (reads_scriptLines m mem).2 paths
    exact ⟨reads.literal.mpr literal,reads.final literal⟩

end

def anaFile (f : CredentialFile) : SaveCredentialInput := ⟨"ana","tools",none,none,none,none,some [f],none,none⟩

def handedOut (f : CredentialFile) : MaterializedCred :=
  let id := credId "ana" "tools" "file"
  .file id "ana" "tools" [f] ⟨⟨id,"channel:eng",5,"deploy"⟩,"deploy"⟩

theorem home_file_script_literal :
    (∀ deps, savedFiles deps (anaFile ⟨"~/.aws/my\\config","J2I="⟩) = .ok (some [⟨".aws/my\\config","J2I="⟩])) ∧
      Literal home (renderUseScript (handedOut ⟨".aws/my\\config","J2I="⟩)) :=
  ⟨fun _ => rfl,((file_scripts_literal_iff _ _ _ _ _).mpr (by decide +kernel)).1⟩

theorem path_read_as_command :
    (∀ deps, savedFiles deps (anaFile ⟨"a$(id)","J2I="⟩) = .ok (some [⟨"a$(id)","J2I="⟩])) ∧
      let script := renderUseScript (handedOut ⟨"a$(id)","J2I="⟩)
      script[113]? = some ('$',true) ∧ script[114]? = some ('(',true) ∧
        (Shell.final home ((script.take 113).map Prod.fst)).role '$' (some '(') = .special ∧ ¬Literal home script :=
  ⟨fun _ => rfl,by decide +kernel⟩

end CompanyBrain.Credentials
