import CompanyBrain.Foundations.Url
import Mathlib.Data.List.TakeWhile

namespace CompanyBrain.Foundations.Web

variable {t : Text}

theorem trimBlank_eq (visible : ∀ c ∈ t, isVisible c) : trimBlank t = t := by
  have keeps (t : Text) (visible : ∀ c ∈ t, isVisible c = true) : t.dropWhile isBlank = t := by
    cases t with
    | nil => rfl
    | cons c => exact List.dropWhile_cons_of_neg (by simpa [isVisible] using visible c (.head _))
  rw [trimBlank,keeps t visible,keeps t.reverse fun c mem => visible c (List.mem_reverse.mp mem),List.reverse_reverse]

theorem clean_eq (visible : ∀ c ∈ t, isVisible c) : clean t = t := by
  rw [clean,trimBlank_eq visible,List.filter_eq_self]
  intro c mem
  have other {d : Char} (blank : isVisible d = false) : c ≠ d := ne_of_test (visible c mem) blank
  simp [other (d := '\t') (by decide),other (d := '\n') (by decide),other (d := '\r') (by decide)]

theorem partText_cases (mark : Char) (p : Option Part) :
    partText mark p = [] ∨ ∃ p' : Part, partText mark p = mark :: p'.val := by
  unfold partText
  split
  · exact .inl rfl
  · split
    · exact .inl rfl
    · exact .inr ⟨_,rfl⟩

theorem partText_visible {mark : Char} (shown : isVisible mark) (p : Option Part) :
    ∀ c ∈ partText mark p, isVisible c := by
  rcases partText_cases mark p with is | ⟨p',is⟩ <;> rw [is]
  · simp
  · exact List.forall_mem_cons.mpr ⟨shown,p'.property⟩

namespace Url

variable {hosts : HostParser} (u : Url hosts)

theorem pathname_visible : ∀ c ∈ u.pathname, isVisible c := by
  intro c mem
  obtain ⟨s,_,mem⟩ := List.mem_flatMap.mp mem
  rcases List.mem_cons.mp mem with rfl | mem
  · decide
  · exact (Bool.and_eq_true_iff.mp (s.property c mem)).1

theorem search_visible : ∀ c ∈ u.search, isVisible c := partText_visible (by decide) u.query

theorem hash_visible : ∀ c ∈ u.hash, isVisible c := partText_visible (by decide) u.fragment

theorem pathname_eq : ∃ rest, u.pathname = '/' :: rest := by
  obtain ⟨s,more,is⟩ := List.exists_cons_of_ne_nil u.rooted
  exact ⟨s.val ++ more.flatMap fun s => '/' :: s.val,by simp [pathname,is]⟩

theorem head_search_hash : (u.search ++ u.hash).head?.any isSlash = false := by
  rcases partText_cases '?' u.query with query | ⟨_,query⟩
  · rcases partText_cases '#' u.fragment with fragment | ⟨_,fragment⟩
    · rw [search,hash,query,fragment]
      rfl
    · rw [search,hash,query,fragment]
      rfl
  · rw [search,query]
    rfl

-- The first path segment is empty and not the last.
def Doubled : Prop := ∃ s more, u.path = s :: more ∧ s.val = [] ∧ more ≠ []

def reference : Text := u.pathname ++ u.search ++ u.hash

theorem reference_visible : ∀ c ∈ u.reference, isVisible c := by
  intro c mem
  rcases List.mem_append.mp mem with mem | mem
  · rcases List.mem_append.mp mem with mem | mem
    · exact u.pathname_visible c mem
    · exact u.search_visible c mem
  · exact u.hash_visible c mem

theorem second_not_slash {rest : Text} (whole : u.reference = '/' :: rest) (single : ¬u.Doubled) :
    rest.head?.any isSlash = false := by
  obtain ⟨s,more,is⟩ := List.exists_cons_of_ne_nil u.rooted
  have rest_eq : rest = s.val ++ (more.flatMap fun s => '/' :: s.val) ++ (u.search ++ u.hash) := by
    simpa [reference,pathname,is] using whole.symm
  cases chars : s.val with
  | cons c =>
    have inside := (Bool.and_eq_true_iff.mp (s.property c (chars ▸ (.head _)))).2
    simpa [rest_eq,chars] using inside
  | nil =>
    cases more with
    | nil => simpa [rest_eq,chars] using u.head_search_hash
    | cons => exact absurd ⟨s,_,is,chars,List.cons_ne_nil _ _⟩ single

end Url

theorem schemeOf_slash (t : Text) : schemeOf ('/' :: t) = none := by
  unfold schemeOf cut
  cases cut ':' t <;> rfl

section

variable {hosts : HostParser} (foreign : Text → Option (Option (Origin hosts))) (page : Url hosts)

theorem resolve_root {rest : Text} (visible : ∀ c ∈ t, isVisible c) (rooted : t = '/' :: rest)
    (single : rest.head?.any isSlash = false) :
    resolve hosts foreign page t = some (.special (rootRelative page rest)) := by
  subst rooted
  have slash : isSlash '/' = true := rfl
  rw [resolve,clean_eq visible,schemeOf_slash]
  simp [relativeState,slash,single]

theorem resolve_reference (u : Url hosts) (single : ¬u.Doubled) :
    ∃ v, resolve hosts foreign page u.reference = some (.special v) ∧ v.origin = page.origin := by
  obtain ⟨rest,path⟩ := u.pathname_eq
  have whole : u.reference = '/' :: (rest ++ u.search ++ u.hash) := by rw [Url.reference,path]; rfl
  exact ⟨_,resolve_root foreign page u.reference_visible whole (u.second_not_slash whole single),rfl⟩

theorem resolve_doubled (u : Url hosts) (doubled : u.Doubled) :
    resolve hosts foreign page u.reference = (authorityState hosts page.origin.scheme u.reference).map .special := by
  obtain ⟨s,_,is,empty,more⟩ := doubled
  obtain ⟨next,more,rfl⟩ := List.exists_cons_of_ne_nil more
  obtain ⟨rest,whole⟩ : ∃ rest, u.reference = '/' :: '/' :: rest := by simp [Url.reference,Url.pathname,is,empty]
  have slash : isSlash '/' = true := rfl
  rw [resolve,clean_eq u.reference_visible,whole,schemeOf_slash]
  simp [relativeState,slash]

end

def isAuthorityChar (c : Char) : Bool := isVisible c && !endsAuthority c && c ≠ '@'

theorem HostText.authority (host : HostText t) : ∀ c ∈ t, isAuthorityChar c := by
  intro c mem
  cases host with
  | name _ chars =>
    have char := chars c mem
    simp only [isHostChar,Bool.and_eq_true,decide_eq_true_iff,List.mem_cons,not_or] at char
    simp [isAuthorityChar,endsAuthority,isSlash,char]
  | address chars =>
    simp only [List.cons_append,List.mem_cons,List.mem_append,List.not_mem_nil,or_false] at mem
    rcases mem with rfl | mem | rfl
    · rfl
    · have all : "0123456789abcdef:".toList.all isAuthorityChar = true := by decide
      exact List.all_eq_true.mp all c (chars c mem)
    · rfl

theorem HostText.ne_nil (host : HostText t) : t ≠ [] := by
  cases host with
  | name filled => exact filled
  | address => simp

theorem digit_authority {c : Char} (digit : c.isDigit) : isAuthorityChar c := by
  have other {d : Char} (letter : d.isDigit = false) : c ≠ d := ne_of_test digit letter
  have blank : isVisible c = true := by
    simp only [Char.isDigit,Bool.and_eq_true,decide_eq_true_iff] at digit
    have low : 48 ≤ c.toNat := digit.1
    simp only [isVisible,isBlank,Bool.not_eq_true',decide_eq_false_iff_not]
    omega
  simp [isAuthorityChar,endsAuthority,isSlash,blank,other (d := '/') (by decide),other (d := '\\') (by decide),
    other (d := '?') (by decide),other (d := '#') (by decide),other (d := '@') (by decide)]

theorem authority_visible {c : Char} (char : isAuthorityChar c) : isVisible c := by
  simp only [isAuthorityChar,Bool.and_eq_true] at char
  exact char.1.1

section

variable {scheme : Scheme} (port : Option (Port scheme))

def portDigits : Option (Port scheme) → Option Text := Option.map fun p => Nat.toDigits 10 p.val

theorem portText_authority : ∀ c ∈ portText port, isAuthorityChar c := by
  intro c mem
  cases port with
  | none => cases mem
  | some =>
    rcases List.mem_cons.mp mem with rfl | mem
    · rfl
    · exact digit_authority (Nat.isDigit_of_mem_toDigits (by decide) (by decide) mem)

theorem parsePort_digits : parsePort scheme (portDigits port) = some port := by
  cases port with
  | none => rfl
  | some p =>
    obtain ⟨c,t,digits⟩ := List.exists_cons_of_ne_nil (Nat.toDigits_ne_nil (b := 10))
    have all : (c :: t).all Char.isDigit = true := by
      rw [← digits,List.all_eq_true]
      exact fun d mem => Nat.isDigit_of_mem_toDigits (by decide) (by decide) mem
    have value : Nat.ofDigitChars 10 (c :: t) 0 = p.val := by
      rw [← digits]
      exact Nat.ofDigitChars_toDigits (by decide) (by decide)
    simp only [portDigits,Option.map_some,digits,parsePort,all,value,p.property.1,p.property.2,
      ne_eq]
    rfl

theorem splitPort_port : splitPort false (portText port) = ([],portDigits port) := by
  cases port <;> rfl

theorem splitPort_append {inside : Bool} (rest : Text) (same : ∀ c ∈ t, (c = ':' → inside) ∧ c ≠ '[' ∧ c ≠ ']') :
    splitPort inside (t ++ rest) = (t ++ (splitPort inside rest).1,(splitPort inside rest).2) := by
  induction t with
  | nil => rfl
  | cons c t ih =>
    obtain ⟨colon,opened,closed⟩ := same c (.head _)
    have stays : ¬(c = ':' ∧ inside = false) := fun ⟨is,out⟩ => by rw [colon is] at out; cases out
    simp only [List.cons_append,splitPort,if_neg stays,if_neg opened,if_neg closed,
      ih fun c mem => same c (.tail _ mem)]

theorem splitPort_host (host : HostText t) : splitPort false (t ++ portText port) = (t,portDigits port) := by
  cases host with
  | name _ chars =>
    rw [splitPort_append,splitPort_port,List.append_nil]
    intro c mem
    have char := chars c mem
    simp only [isHostChar,Bool.and_eq_true,decide_eq_true_iff,List.mem_cons,not_or] at char
    exact ⟨fun is => absurd is char.2.2.2.2.1,char.2.2.2.2.2.2.2.2.2.1,char.2.2.2.2.2.2.2.2.2.2.2.1⟩
  | @address t chars =>
    have all : "0123456789abcdef:".toList.all (· ∉ ['[',']']) = true := by decide
    have inner : ∀ c ∈ t, (c = ':' → true = true) ∧ c ≠ '[' ∧ c ≠ ']' := by
      intro c mem
      have out := List.all_eq_true.mp all c (chars c mem)
      simp only [List.mem_cons,List.not_mem_nil,or_false,not_or,decide_eq_true_iff] at out
      exact ⟨fun _ => rfl,out⟩
    have enter : splitPort false ('[' :: t ++ [']'] ++ portText port) =
        ('[' :: (splitPort true (t ++ (']' :: portText port))).1,(splitPort true (t ++ (']' :: portText port))).2) := by
      simp [splitPort]
    have leave : splitPort true (']' :: portText port) = ([']'],portDigits port) := by
      simp [splitPort,splitPort_port]
    rw [enter,splitPort_append _ inner,leave]
    rfl

end

theorem schemeOf_text (s : Scheme) (rest : Text) : schemeOf (s.text ++ ':' :: rest) = some (s.text,rest) := by
  cases s <;> rfl

theorem ofText_text (s : Scheme) : Scheme.ofText s.text = some s := by cases s <;> rfl

theorem authorityOf_plain (plain : '@' ∉ t) : authorityOf t = ⟨[],[],t⟩ := by
  have none : cutLast '@' t = none := by rw [cutLast,cut_eq_none (by simpa using plain),Option.map_none]
  simp only [authorityOf,none]

section

variable {hosts : HostParser} (foreign : Text → Option (Option (Origin hosts))) (page : Url hosts)

theorem parseOrigin_text (o : Origin hosts) :
    parseOrigin hosts o.scheme (hosts.text o.host ++ portText o.port) = some o := by
  have host := hosts.text_host o.host
  simp only [parseOrigin,splitPort_host o.port host,if_neg host.ne_nil,hosts.parse_text,parsePort_digits]
  rfl

theorem hostPort_authority (o : Origin hosts) : ∀ c ∈ hosts.text o.host ++ portText o.port, isAuthorityChar c := by
  intro c mem
  rcases List.mem_append.mp mem with mem | mem
  · exact (hosts.text_host o.host).authority c mem
  · exact portText_authority o.port c mem

theorem authorityState_text (o : Origin hosts) (rest : Text) :
    ∃ v, authorityState hosts o.scheme ("//".toList ++ (hosts.text o.host ++ portText o.port) ++ '/' :: rest) = some v ∧
      v.origin = o := by
  generalize is : hosts.text o.host ++ portText o.port = hostPort
  have chars : ∀ c ∈ hostPort, isAuthorityChar c = true := is ▸ hostPort_authority o
  have inside : ∀ c ∈ hostPort, (!endsAuthority c) = true := by
    intro c mem
    have char := chars c mem
    simp only [isAuthorityChar,Bool.and_eq_true] at char
    exact char.1.2
  have plain : '@' ∉ hostPort := by
    intro mem
    cases chars _ mem
  have slashes : ("//".toList ++ hostPort ++ '/' :: rest).dropWhile isSlash = hostPort ++ '/' :: rest := by
    obtain ⟨c,t,cons⟩ : ∃ c t, hostPort = c :: t := by
      refine List.exists_cons_of_ne_nil fun nil => (hosts.text_host o.host).ne_nil ?_
      exact (List.append_eq_nil_iff.mp (is.trans nil)).1
    have first := inside c (cons ▸ (.head _))
    simp only [endsAuthority,Bool.not_eq_true',Bool.or_eq_false_iff] at first
    have stops : (c :: t ++ '/' :: rest).dropWhile isSlash = c :: t ++ '/' :: rest :=
      List.dropWhile_cons_of_neg (by rw [first.1.1]; decide)
    rw [cons]
    exact stops
  have front : (hostPort ++ '/' :: rest).takeWhile (fun c => !endsAuthority c) = hostPort := by
    rw [List.takeWhile_append_of_pos inside,List.takeWhile_cons_of_neg (by decide),List.append_nil]
  refine ⟨afterAuthority hosts o ⟨[],[],hostPort⟩
    ((hostPort ++ '/' :: rest).dropWhile fun c => !endsAuthority c),?_,rfl⟩
  rw [authorityState,slashes,front,authorityOf_plain plain,← is,parseOrigin_text,Option.map_some]

theorem absolute_visible (u : Url hosts) : ∀ c ∈ u.origin.text ++ u.pathname ++ u.search, isVisible c := by
  intro c mem
  simp only [Origin.text,List.append_assoc,List.mem_append] at mem
  rcases mem with mem | mem | mem | mem | mem | mem
  · have all : u.origin.scheme.text.all isVisible = true := by cases u.origin.scheme <;> decide
    exact List.all_eq_true.mp all c mem
  · have all : "://".toList.all isVisible = true := by decide
    exact List.all_eq_true.mp all c mem
  · exact authority_visible (hostPort_authority u.origin c (List.mem_append_left _ mem))
  · exact authority_visible (hostPort_authority u.origin c (List.mem_append_right _ mem))
  · exact u.pathname_visible c mem
  · exact u.search_visible c mem

theorem resolve_absolute (u : Url hosts) :
    ∃ v, resolve hosts foreign page (u.origin.text ++ u.pathname ++ u.search) = some (.special v) ∧
      v.origin = u.origin := by
  obtain ⟨rest,path⟩ := u.pathname_eq
  obtain ⟨v,found,origin⟩ := authorityState_text u.origin (rest ++ u.search)
  refine ⟨v,?_,origin⟩
  have whole : u.origin.text ++ u.pathname ++ u.search = u.origin.scheme.text ++
      ':' :: ("//".toList ++ (hosts.text u.origin.host ++ portText u.origin.port) ++ '/' :: (rest ++ u.search)) := by
    simp [Origin.text,path]
  have slashes (t t' : Text) : "//".toList <+: "//".toList ++ t ++ t' := by
    exact List.prefix_append _ _
  rw [resolve,clean_eq (absolute_visible u),whole,schemeOf_text]
  simp only [ofText_text,slashes,not_true_eq_false,and_false,if_false,found,Option.map_some]

end

end CompanyBrain.Foundations.Web
