import CompanyBrain.Foundations.UrlResolution

namespace CompanyBrain.Portal

open Foundations Foundations.Web

section

variable (hosts : HostParser) (foreign : Text → Option (Option (Origin hosts))) (toLowerCase : Text → Text)

def appsReturnTo (u : Url hosts) (appsDomain : Text) : Option Text :=
  let hostname := hosts.text u.origin.host
  let suffix := '.' :: toLowerCase appsDomain
  let slug := hostname.take (hostname.length - suffix.length)
  if u.origin.scheme ≠ .https ∨ u.username ≠ [] ∨ u.password ≠ [] then none
  else if ¬suffix <:+ hostname then none
  else if slug = [] ∨ '.' ∈ slug then none
  else some (u.origin.text ++ u.pathname ++ u.search)

def sanitizeAppsReturnTo (value appsDomain : Text) : Option Text :=
  match parse hosts foreign value with
  | some (.special u) => appsReturnTo hosts toLowerCase u appsDomain
  | _ => none

variable {hosts} in
def originOf : Parsed hosts → Option (Origin hosts)
  | .special u => some u.origin
  | .foreign origin => origin

variable {hosts} in
def originText (p : Parsed hosts) : Text := ((originOf p).map Origin.text).getD "null".toList

def hasControl (value : Text) : Bool := value.any fun c => c = '\\' || c.toNat ≤ 0x1f

def hasEncodedSlash (value : Text) : Bool :=
  "%2f%2f".toList <:+: value.map Char.toLower || "%5c".toList <:+: value.map Char.toLower

-- The base is an origin or "null", and a value with a leading slash has no scheme of its own.
def sameOriginUrl (value publicOrigin : Text) : Option (Url hosts) := do
  let base := originText (← parse hosts foreign publicOrigin)
  match ← parse hosts foreign base with
  | .foreign _ => none
  | .special b =>
    match ← resolve hosts foreign b value with
    | .foreign _ => none
    | .special u => if u.origin.text ≠ base then none else some u

def pathUrl (value publicOrigin : Text) : Option (Url hosts) :=
  if value.head? ≠ some '/' then none
  else if "//".toList <+: value then none
  else if hasControl value then none
  else if hasEncodedSlash value then none
  else sameOriginUrl hosts foreign value publicOrigin

def pathReturnTo (value publicOrigin : Text) : Text :=
  ((pathUrl hosts foreign value publicOrigin).map Url.reference).getD ['/']

def sanitizeReturnTo (value : Option Text) (publicOrigin : Text) (appsDomain : Option Text) : Text :=
  match truthy value with
  | none => ['/']
  | some value =>
    match (truthy appsDomain).bind (sanitizeAppsReturnTo hosts foreign toLowerCase value) with
    | some apps => apps
    | none => pathReturnTo hosts foreign value publicOrigin

-- The URL that the value is parsed to, where its path is what is returned.
def returnedUrl (value : Option Text) (publicOrigin : Text) (appsDomain : Option Text) : Option (Url hosts) :=
  (truthy value).bind fun value =>
    match (truthy appsDomain).bind (sanitizeAppsReturnTo hosts foreign toLowerCase value) with
    | some _ => none
    | none => pathUrl hosts foreign value publicOrigin

def publicOriginOf (publicOrigin : Text) : Option (Origin hosts) := (parse hosts foreign publicOrigin).bind originOf

variable {hosts} in
structure OneLabelBelow (origin : Origin hosts) (domain : Text) : Prop where
  https : origin.scheme = .https
  label : ∃ slug, slug ≠ [] ∧ '.' ∉ slug ∧ hosts.text origin.host = slug ++ '.' :: domain

variable {hosts} in
def Allowed (publicOrigin : Text) (appsDomain : Option Text) (origin : Origin hosts) : Prop :=
  publicOriginOf hosts foreign publicOrigin = some origin ∨
    ∃ domain, appsDomain = some domain ∧ OneLabelBelow origin (toLowerCase domain)

variable {hosts foreign toLowerCase}

theorem appsReturnTo_below {u : Url hosts} {domain result : Text}
    (found : appsReturnTo hosts toLowerCase u domain = some result) :
    OneLabelBelow u.origin (toLowerCase domain) ∧ result = u.origin.text ++ u.pathname ++ u.search := by
  dsimp only [appsReturnTo] at found
  split at found
  · cases found
  next plain =>
    split at found
    · cases found
    next ends =>
      obtain ⟨slug,is⟩ := Decidable.not_not.mp ends
      split at found
      · cases found
      next label =>
        have front : (hosts.text u.origin.host).take
          ((hosts.text u.origin.host).length - ('.' :: toLowerCase domain).length) =
            slug := by
          rw [← is,List.length_append,Nat.add_sub_cancel,List.take_left]
        rw [front] at label
        simp only [not_or,Decidable.not_not] at plain label
        exact ⟨⟨plain.1,slug,label.1,label.2,is.symm⟩,(Option.some.inj found).symm⟩

theorem sanitizeAppsReturnTo_below {value domain result : Text}
    (found : sanitizeAppsReturnTo hosts foreign toLowerCase value domain = some result) :
    ∃ u : Url hosts, OneLabelBelow u.origin (toLowerCase domain) ∧
      result = u.origin.text ++ u.pathname ++ u.search := by
  unfold sanitizeAppsReturnTo at found
  split at found
  · exact ⟨_,appsReturnTo_below found⟩
  · cases found

variable (value : Option Text) (publicOrigin : Text) (appsDomain : Option Text)

theorem sanitizeReturnTo_cases :
    match returnedUrl hosts foreign toLowerCase value publicOrigin appsDomain with
    | some u => sanitizeReturnTo hosts foreign toLowerCase value publicOrigin appsDomain = u.reference
    | none => sanitizeReturnTo hosts foreign toLowerCase value publicOrigin appsDomain = ['/'] ∨
        ∃ (u : Url hosts) (domain : Text), appsDomain = some domain ∧ OneLabelBelow u.origin (toLowerCase domain) ∧
          sanitizeReturnTo hosts foreign toLowerCase value publicOrigin appsDomain =
            u.origin.text ++ u.pathname ++ u.search := by
  unfold returnedUrl sanitizeReturnTo
  cases truthy value with
  | none => exact .inl rfl
  | some value =>
    rw [Option.bind_some]
    cases found : (truthy appsDomain).bind (sanitizeAppsReturnTo hosts foreign toLowerCase value) with
    | some apps =>
      obtain ⟨domain,given,apps⟩ := Option.bind_eq_some_iff.mp found
      obtain ⟨u,below,is⟩ := sanitizeAppsReturnTo_below apps
      simp only [found]
      exact .inr ⟨u,domain,(Option.filter_eq_some_iff.mp given).1,below,is⟩
    | none =>
      simp only [found,pathReturnTo]
      cases pathUrl hosts foreign value publicOrigin with
      | none => exact .inl rfl
      | some => rfl

theorem return_to_lands_iff (page : Url hosts) (home : publicOriginOf hosts foreign publicOrigin = some page.origin) :
    (∃ v, resolve hosts foreign page (sanitizeReturnTo hosts foreign toLowerCase value publicOrigin appsDomain) =
        some (.special v) ∧ Allowed foreign toLowerCase publicOrigin appsDomain v.origin) ↔
      ∀ u, returnedUrl hosts foreign toLowerCase value publicOrigin appsDomain = some u → u.Doubled →
        ∃ v, authorityState hosts page.origin.scheme u.reference = some v ∧
          Allowed foreign toLowerCase publicOrigin appsDomain v.origin := by
  have cases := @sanitizeReturnTo_cases hosts foreign toLowerCase value publicOrigin appsDomain
  cases taken : returnedUrl hosts foreign toLowerCase value publicOrigin appsDomain with
  | none =>
    rw [taken] at cases
    refine iff_of_true ?_ nofun
    rcases cases with is | ⟨u,domain,given,below,is⟩ <;> rw [is]
    · exact ⟨_,resolve_root foreign page (List.all_eq_true.mp rfl) rfl rfl,.inl home⟩
    · obtain ⟨v,found,origin⟩ := resolve_absolute foreign page u
      exact ⟨v,found,.inr ⟨domain,given,origin ▸ below⟩⟩
  | some u =>
    rw [taken] at cases
    rw [cases]
    by_cases doubled : u.Doubled
    · simp [resolve_doubled foreign page u doubled,doubled]
    · refine iff_of_true ?_ ?_
      · obtain ⟨v,found,origin⟩ := resolve_reference foreign page u doubled
        exact ⟨v,found,.inl (origin ▸ home)⟩
      · rintro u' ⟨⟩ doubled'
        exact absurd doubled' doubled

end

def domainChars : Text := "abcdefghijklmnopqrstuvwxyz0123456789-.".toList

def isPlainDomain (t : Text) : Bool :=
  t.all (· ∈ domainChars) && t.getLast?.any Char.isAlpha && !("xn--".toList <:+: t)

section

variable {t : Text} (plain : isPlainDomain t = true)

include plain

theorem plainDomain_chars : ∀ c ∈ t, c ∈ domainChars := by
  simp only [isPlainDomain,Bool.and_eq_true,List.all_eq_true,decide_eq_true_iff] at plain
  exact plain.1.1

theorem plainDomain_ne_nil : t ≠ [] := by
  rintro rfl
  cases plain

theorem plainDomain_lower : t.map Char.toLower = t := by
  have all : domainChars.all (fun c => c.toLower = c) = true := by decide
  have lower : ∀ c ∈ t, c.toLower = id c := fun c mem =>
    of_decide_eq_true (List.all_eq_true.mp all c (plainDomain_chars plain c mem))
  rw [List.map_congr_left lower,List.map_id]

theorem plainDomain_host : HostText t := by
  have all : domainChars.all isHostChar = true := by decide
  exact .name (plainDomain_ne_nil plain) fun c mem => List.all_eq_true.mp all c (plainDomain_chars plain c mem)

end

def plainHosts : HostParser where
  Host := {t : Text // isPlainDomain t = true}
  parse t := if plain : isPlainDomain (t.map Char.toLower) = true then some ⟨_,plain⟩ else none
  text h := h.val
  parse_text := by
    rintro ⟨t,plain⟩
    simp only [plainDomain_lower plain,plain,dif_pos]
  text_host h := plainDomain_host h.property

def noForeign (_ : Text) : Option (Option (Origin plainHosts)) := none

def portalOrigin : Text := "https://agent.example.com".toList

def appsDomain : Text := "apps.example.com".toList

def rootOf (host : Text) (plain : isPlainDomain host = true) : Url plainHosts :=
  ⟨⟨.https,⟨host,plain⟩,none⟩,[],[],[.empty],List.cons_ne_nil _ _,none,none⟩

def portalPage : Url plainHosts := rootOf "agent.example.com".toList (by decide)

def returnTo (value : String) : Text :=
  sanitizeReturnTo plainHosts noForeign (List.map Char.toLower) (some value.toList) portalOrigin (some appsDomain)

theorem portalPage_public : publicOriginOf plainHosts noForeign portalOrigin = some portalPage.origin := rfl

theorem web_ui_lands : returnTo "/web-ui/?x=1" = "/web-ui/?x=1".toList ∧
    ∃ v, resolve plainHosts noForeign portalPage (returnTo "/web-ui/?x=1") = some (.special v) ∧
      Allowed noForeign (List.map Char.toLower) portalOrigin (some appsDomain) v.origin := by
  refine ⟨by decide +kernel,(return_to_lands_iff _ _ _ portalPage portalPage_public).mpr ?_⟩
  rintro u taken ⟨s,more,is,empty,_⟩
  have first : (returnedUrl plainHosts noForeign (List.map Char.toLower) (some "/web-ui/?x=1".toList) portalOrigin
      (some appsDomain)).map (fun u => u.path.head?.map fun s => s.val) = some (some "web-ui".toList) := by
    decide +kernel
  rw [taken,Option.map_some,is] at first
  cases (Option.some.inj (Option.some.inj first)).symm.trans empty

theorem dot_segment_leaves : returnTo "/.//evil.com" = "//evil.com".toList ∧
    ¬∃ v, resolve plainHosts noForeign portalPage (returnTo "/.//evil.com") = some (.special v) ∧
      Allowed noForeign (List.map Char.toLower) portalOrigin (some appsDomain) v.origin := by
  have returned : returnTo "/.//evil.com" = "//evil.com".toList := by decide +kernel
  have reached : resolve plainHosts noForeign portalPage "//evil.com".toList =
      some (.special (rootOf "evil.com".toList (by decide))) := rfl
  refine ⟨returned,?_⟩
  rintro ⟨v,found,lands⟩
  rw [returned,reached] at found
  obtain rfl := Parsed.special.inj (Option.some.inj found)
  rcases lands with same | ⟨domain,given,below⟩
  · rw [portalPage_public] at same
    have host := congrArg (fun o : Origin plainHosts => plainHosts.text o.host) (Option.some.inj same)
    exact absurd host (by decide)
  · obtain ⟨slug,_,_,is⟩ := below.label
    have length := congrArg List.length is
    rw [← Option.some.inj given,List.length_append,List.length_cons,List.length_map] at length
    have short : (plainHosts.text (rootOf "evil.com".toList (by decide)).origin.host).length = 8 := by decide
    have long : appsDomain.length = 16 := by decide
    omega

end CompanyBrain.Portal
