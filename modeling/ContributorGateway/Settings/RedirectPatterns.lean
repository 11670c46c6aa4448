import ContributorGateway.Core.Citations
import ContributorGateway.Foundation.CaseMaps
import ContributorGateway.Foundation.Results
import ContributorGateway.Foundation.Urls
import Mathlib.Data.List.Dedup

/-!
# Redirect patterns

`_validate_redirect_pattern` of the settings. A pattern with a wildcard is matched by a regular
expression alone, every other one is split as a URL. The expression also lets a second star
through in the path, and a long s in the host.
-/

namespace ContributorGateway.RedirectPatterns

/-- What the standard library decides about hosts: `str.lower`, the checks of a network
location that raise, and whether a text is a loopback address. -/
structure UrlRules where
  lower : List Char → List Char
  refusesNetloc : List Char → Bool
  /-- `ip_address(host).is_loopback`, without a `ValueError`. -/
  isLoopbackAddress : List Char → Bool
  /-- `repr(value)`. -/
  repr : List Char → String

/-- The hosts of `_LOOPBACK_WILDCARD`. -/
def wildcardHosts : List (List Char) := ["localhost", "127.0.0.1", "[::1]"].map String.toList

/-- A full match of `(?:/[^\s?#]*)?`. -/
def isPathSuffix : List Char → Bool
  | [] => true
  | c :: path => c = '/' && path.all fun c => !isSpace c && c ≠ '?' && c ≠ '#'

/-- `_LOOPBACK_WILDCARD.fullmatch(value)`. -/
def matchesLoopbackWildcard (value : List Char) : Bool :=
  wildcardHosts.any fun host =>
    (dropPattern ("http://".toList ++ host ++ ":*".toList) value).any isPathSuffix

/-- `_is_loopback`. -/
def isLoopback (rules : UrlRules) (host : List Char) : Bool :=
  rules.lower host = "localhost".toList || rules.isLoopbackAddress host

/-- `bool(text)` for a text that may be missing. -/
def isGiven (text : Option (List Char)) : Bool := text.any fun text => !text.isEmpty

/-- The checks of `_validate_redirect_pattern` on a split URL with a port. -/
def checkSplitUrl (rules : UrlRules) (value : List Char) (url : SplitResult) (port : Option ℕ) :
    Except String Unit :=
  match url.hostname rules.lower with
  | none => .error ("unsafe OAuth redirect URI: " ++ rules.repr value)
  | some host =>
      if isGiven url.userinfo.1 || isGiven url.userinfo.2 || !url.query.isEmpty ||
          !url.fragment.isEmpty then
        .error ("unsafe OAuth redirect URI: " ++ rules.repr value)
      else if port = some 0 then .error ("invalid OAuth redirect port: " ++ rules.repr value)
      else if isLoopback rules host then
        if url.scheme = "http".toList || url.scheme = "https".toList then .ok ()
        else .error ("loopback OAuth redirects must use HTTP or HTTPS: " ++ rules.repr value)
      else if url.scheme = "https".toList then .ok ()
      else .error ("non-loopback OAuth redirects must use HTTPS: " ++ rules.repr value)

/-- `_validate_redirect_pattern`. -/
def validateRedirectPattern (rules : UrlRules) (value : List Char) : Except String Unit :=
  if value.isEmpty || value != stripText value then
    .error "OAuth redirect patterns must be nonempty and trimmed"
  else if matchesLoopbackWildcard value then .ok ()
  else if value.contains '*' then
    .error "OAuth redirect wildcards are allowed only as a loopback HTTP port wildcard"
  else
    let parsed := (urlsplit rules.refusesNetloc value).bind fun url =>
      url.port.map fun port => (url, port)
    match parsed with
    | none => .error ("invalid OAuth redirect URI: " ++ rules.repr value)
    | some (url, port) => checkSplitUrl rules value url port

/-- `Settings.validate_redirects`. -/
def validateRedirects (rules : UrlRules) (values : List (List Char)) :
    Except String (List (List Char)) :=
  let unique := values.reverse.dedup.reverse
  (forM unique (validateRedirectPattern rules)).map fun _ => unique

/-! ## The forms of a pattern -/

/-- A URL without a wildcard: it has a host, no credentials, query or fragment, and uses HTTPS
unless the host is loopback. -/
structure PlainRedirect (rules : UrlRules) (value : List Char) (url : SplitResult)
    (host : List Char) : Prop where
  star : '*' ∉ value
  split : urlsplit rules.refusesNetloc value = some url
  spells : url.Spells (cleanUrl value)
  named : url.hostname rules.lower = some host
  credentials : url.userinfo.1.getD [] = [] ∧ url.userinfo.2.getD [] = []
  query : url.query = []
  fragment : url.fragment = []
  secure : url.scheme = "https".toList ∨
    isLoopback rules host = true ∧ url.scheme = "http".toList

/-- An HTTP URL on a loopback host whose port is the only wildcard. -/
structure WildcardRedirect (value : List Char) : Prop where
  star : value.count '*' = 1
  port : ∃ scheme host path, value = scheme ++ "://".toList ++ host ++ ":*".toList ++ path ∧
    scheme.map Char.toLower = "http".toList ∧ host.map Char.toLower ∈ wildcardHosts ∧
    (path = [] ∨ path.head? = some '/')

/-- The two forms of a redirect pattern. -/
def RedirectForm (rules : UrlRules) (value : List Char) : Prop :=
  (∃ url host, PlainRedirect rules value url host) ∨ WildcardRedirect value

variable {rules : UrlRules} {value : List Char}

/-- A text that may be missing is not given when it is empty. -/
theorem getD_eq_nil {text : Option (List Char)} (h : isGiven text = false) : text.getD [] = [] := by
  cases text with
  | none => rfl
  | some text => simpa [isGiven] using h

/-- A split URL that is accepted is safe. -/
theorem safe_of_checkSplitUrl {url : SplitResult} {port : Option ℕ}
    (h : checkSplitUrl rules value url port = .ok ()) :
    ∃ host, url.hostname rules.lower = some host ∧
      (url.userinfo.1.getD [] = [] ∧ url.userinfo.2.getD [] = []) ∧ url.query = [] ∧
      url.fragment = [] ∧ (url.scheme = "https".toList ∨
        isLoopback rules host = true ∧ url.scheme = "http".toList) := by
  rw [checkSplitUrl] at h
  split at h
  · cases h
  next host hhost =>
  refine ⟨host, hhost, ?_⟩
  split_ifs at h with hunsafe hzero hloopback hscheme hhttps
  all_goals
    simp only [Bool.or_eq_true, not_or, Bool.not_eq_true, Bool.not_eq_false',
      List.isEmpty_iff] at hunsafe
    obtain ⟨⟨⟨husername, hpassword⟩, hquery⟩, hfragment⟩ := hunsafe
    refine ⟨⟨getD_eq_nil husername, getD_eq_nil hpassword⟩, hquery, hfragment, ?_⟩
  · rw [Bool.or_eq_true, decide_eq_true_eq, decide_eq_true_eq] at hscheme
    rcases hscheme with hhttp | hhttps
    · exact .inr ⟨hloopback, hhttp⟩
    · exact .inl hhttps
  · exact .inl hhttps

/-- A pattern that is accepted without a match of the expression is a plain URL. -/
theorem plainRedirect_of_accepted (h : validateRedirectPattern rules value = .ok ())
    (hplain : matchesLoopbackWildcard value = false) :
    ∃ url host, PlainRedirect rules value url host := by
  rw [validateRedirectPattern, hplain, if_neg Bool.false_ne_true] at h
  split at h
  · cases h
  split at h
  · cases h
  next hstar =>
  dsimp only at h
  split at h
  · cases h
  next url port hsplit =>
  obtain ⟨url', hurl, hport⟩ := Option.bind_eq_some_iff.mp hsplit
  obtain ⟨port', -, hpair⟩ := Option.map_eq_some_iff.mp hport
  obtain ⟨rfl, rfl⟩ := Prod.mk.inj hpair
  obtain ⟨host, hhost, hcredentials, hquery, hfragment, hsecure⟩ := safe_of_checkSplitUrl h
  have hnetloc : url'.netloc ≠ [] :=
    SplitResult.netloc_ne_nil (by rw [hhost]; exact Option.some_ne_none _)
  have hscheme : url'.scheme ≠ [] := by
    rcases hsecure with hhttps | ⟨-, hhttp⟩
    · rw [hhttps]
      decide
    · rw [hhttp]
      decide
  rw [List.contains_iff_mem] at hstar
  exact ⟨url', host, hstar, hurl, spells_of_urlsplit hurl hscheme hnetloc, hhost, hcredentials,
    hquery, hfragment, hsecure⟩

/-! ## Wildcards -/

/-- What the expression matches in front of the star. -/
theorem wildcardHosts_spelled : ∀ host ∈ wildcardHosts,
    '*' ∉ "http://".toList ++ host ++ ":".toList ∧ longS ∉ "http://".toList ++ host ++ ":".toList ∧
      ∀ p ∈ "http://".toList ++ host ++ ":".toList, ∀ c ∈ foldedInto p, c = longS := by
  have hspelled : ∀ host ∈ wildcardHosts, '*' ∉ "http://".toList ++ host ++ ":".toList ∧
      longS ∉ "http://".toList ++ host ++ ":".toList ∧
      (("http://".toList ++ host ++ ":".toList).all fun p =>
        (foldedInto p).all fun c => c = longS) = true := by
    decide
  intro host hhost
  obtain ⟨hstar, hlong, hforeign⟩ := hspelled host hhost
  refine ⟨hstar, hlong, fun p hp c hc => ?_⟩
  exact of_decide_eq_true (List.all_eq_true.mp (List.all_eq_true.mp hforeign p hp) c hc)

/-- The expression matches up to the first star, the host and the scheme in any case, and then
the path. -/
theorem matchesLoopbackWildcard_iff : matchesLoopbackWildcard value = true ↔
    ∃ front host path, value = front ++ '*' :: path ∧ host ∈ wildcardHosts ∧
      List.Forall₂ (matchesChar · ·) ("http://".toList ++ host ++ ":".toList) front ∧
      isPathSuffix path = true := by
  have hstar : ∀ host : List Char, "http://".toList ++ host ++ ":*".toList =
      "http://".toList ++ host ++ ":".toList ++ ['*'] := by
    intro host
    rw [List.append_assoc _ ":".toList]
    rfl
  rw [matchesLoopbackWildcard, List.any_eq_true]
  constructor
  · rintro ⟨host, hhost, h⟩
    obtain ⟨path, hdrop, hpath⟩ := (Option.any_eq_true _ _).mp h
    rw [hstar, dropPattern_append, Option.bind_eq_some_iff] at hdrop
    obtain ⟨rest, hfront, hrest⟩ := hdrop
    obtain ⟨front, rfl, hmatches⟩ := dropPattern_eq_some_iff.mp hfront
    obtain ⟨star, rfl, hstar⟩ := dropPattern_eq_some_iff.mp hrest
    obtain ⟨c, nothing, hc, hnothing, rfl⟩ := List.forall₂_cons_left_iff.mp hstar
    obtain rfl := List.forall₂_nil_left_iff.mp hnothing
    have hc : c = '*' := by
      rw [matchesChar, Bool.or_eq_true, decide_eq_true_eq] at hc
      rcases hc with hc | hc
      · exact eq_of_toLower_eq (.inl (by decide)) hc
      · cases hc
    subst hc
    exact ⟨front, host, path, rfl, hhost, hmatches, hpath⟩
  · rintro ⟨front, host, path, rfl, hhost, hmatches, hpath⟩
    refine ⟨host, hhost, (Option.any_eq_true _ _).mpr ⟨path, ?_, hpath⟩⟩
    rw [hstar, dropPattern_append, dropPattern_eq_some_iff.mpr ⟨front, rfl, hmatches⟩]
    rfl

/-- What stands in front of the first star. -/
theorem takeWhile_star {front path : List Char} (hfront : '*' ∉ front) :
    (front ++ '*' :: path).takeWhile (· ≠ '*') = front := by
  rw [List.takeWhile_append_of_pos fun c hc => ?_, List.takeWhile_cons_of_neg (by simp),
    List.append_nil]
  rw [decide_eq_true_eq]
  rintro rfl
  exact hfront hc

/-- What the expression matches in front of the star has no star itself. -/
theorem star_not_mem_of_matches {front host : List Char} (hhost : host ∈ wildcardHosts)
    (hfront : List.Forall₂ (matchesChar · ·) ("http://".toList ++ host ++ ":".toList) front) :
    '*' ∉ front := by
  intro hstar
  obtain ⟨p, hp, hmatch⟩ := exists_matchesChar hfront hstar
  have hlower : '*' = p := toLower_of_matchesChar hmatch (by decide)
  exact (wildcardHosts_spelled host hhost).1 (hlower ▸ hp)

/-- A pattern with one star that the expression matches is a wildcard for a port. -/
theorem wildcardRedirect_of_matches (hmatches : matchesLoopbackWildcard value = true)
    (hcount : value.count '*' ≤ 1) (hlong : longS ∉ value.takeWhile (· ≠ '*')) :
    WildcardRedirect value := by
  obtain ⟨front, host, path, rfl, hhost, hfront, hpath⟩ := matchesLoopbackWildcard_iff.mp hmatches
  have hstar := star_not_mem_of_matches hhost hfront
  obtain ⟨-, -, hforeign⟩ := wildcardHosts_spelled host hhost
  rw [takeWhile_star hstar] at hlong
  have hlower := map_toLower_of_matches hfront fun p hp c hc => hforeign p hp c hc ▸ hlong
  obtain ⟨front, colon, rfl, hlower, hcolon⟩ := List.map_eq_append_iff.mp hlower
  obtain ⟨http, named, rfl, hhttp, hnamed⟩ := List.map_eq_append_iff.mp hlower
  have hparts : "http://".toList = "http".toList ++ "://".toList := by decide
  obtain ⟨scheme, slashes, rfl, hscheme, hslashes⟩ :=
    List.map_eq_append_iff.mp (hhttp.trans hparts)
  obtain rfl := eq_of_map_toLower_eq (by decide) hcolon
  obtain rfl := eq_of_map_toLower_eq (by decide) hslashes
  refine ⟨?_, scheme, named, path, ?_, hscheme, hnamed.symm ▸ hhost, ?_⟩
  · rw [List.count_append, List.count_eq_zero.mpr hstar, List.count_cons_self] at hcount ⊢
    omega
  · simp only [List.append_assoc]
    rfl
  · cases path with
    | nil => exact .inl rfl
    | cons c path =>
      rw [isPathSuffix, Bool.and_eq_true, decide_eq_true_eq] at hpath
      exact .inr (congrArg some hpath.1)

/-- A wildcard for a port has no long s in front of its star. -/
theorem WildcardRedirect.longS_not_mem (h : WildcardRedirect value) :
    longS ∉ value.takeWhile (· ≠ '*') := by
  obtain ⟨scheme, host, path, rfl, hscheme, hhost, -⟩ := h.port
  obtain ⟨hstar, hlong, -⟩ := wildcardHosts_spelled _ hhost
  have hlower : (scheme ++ "://".toList ++ host ++ ":".toList).map Char.toLower =
      "http://".toList ++ host.map Char.toLower ++ ":".toList := by
    rw [List.map_append, List.map_append, List.map_append, hscheme]
    rfl
  have hvalue : scheme ++ "://".toList ++ host ++ ":*".toList ++ path =
      (scheme ++ "://".toList ++ host ++ ":".toList) ++ '*' :: path := by
    simp only [List.append_assoc]
    rfl
  rw [hvalue, takeWhile_star (not_mem_of_map_toLower (by decide) hlower hstar)]
  exact not_mem_of_map_toLower (by decide) hlower hlong

/-- An accepted pattern has one of the two forms exactly when there is at most one star in it, and
no long s in front of that. -/
theorem redirectForm_iff (h : validateRedirectPattern rules value = .ok ()) :
    RedirectForm rules value ↔
      value.count '*' ≤ 1 ∧ ('*' ∈ value → longS ∉ value.takeWhile (· ≠ '*')) := by
  constructor
  · rintro (⟨url, host, hplain⟩ | hwildcard)
    · rw [List.count_eq_zero.mpr hplain.star]
      exact ⟨Nat.zero_le 1, fun hstar => absurd hstar hplain.star⟩
    · exact ⟨hwildcard.star.le, fun _ => hwildcard.longS_not_mem⟩
  · rintro ⟨hcount, hlong⟩
    cases hmatches : matchesLoopbackWildcard value with
    | false => exact .inl (plainRedirect_of_accepted h hmatches)
    | true =>
      obtain ⟨front, host, path, hvalue, -⟩ := matchesLoopbackWildcard_iff.mp hmatches
      have hstar : '*' ∈ value := by
        rw [hvalue]
        exact List.mem_append_right _ List.mem_cons_self
      exact .inr (wildcardRedirect_of_matches hmatches hcount (hlong hstar))

/-- The rules on ASCII texts, with one loopback address. -/
def asciiRules : UrlRules where
  lower text := text.map Char.toLower
  refusesNetloc _ := false
  isLoopbackAddress host := host = "127.0.0.1".toList
  repr value := "'" ++ String.ofList value ++ "'"

/-- A callback on any port of the local host. -/
theorem callback_redirectForm : RedirectForm asciiRules "http://localhost:*/callback".toList :=
  (redirectForm_iff (by decide)).mpr ⟨by decide, by decide⟩

/-- A second star is accepted in the path. -/
theorem path_star_accepted :
    validateRedirectPattern asciiRules "http://localhost:*/*".toList = .ok () ∧
      ¬ RedirectForm asciiRules "http://localhost:*/*".toList := by
  refine ⟨by decide, ?_⟩
  rintro (⟨url, host, hplain⟩ | hwildcard)
  · exact hplain.star (by decide)
  · have hcount : "http://localhost:*/*".toList.count '*' = 2 := by decide
    rw [hwildcard.star] at hcount
    omega

/-- The settings keep only patterns that are accepted. -/
theorem accepted_of_validateRedirects {values patterns : List (List Char)}
    (h : validateRedirects rules values = .ok patterns) :
    ∀ pattern ∈ patterns, validateRedirectPattern rules pattern = .ok () := by
  rw [validateRedirects] at h
  obtain ⟨⟨⟩, hall, rfl⟩ := map_eq_ok.mp h
  exact fun pattern hpattern => forM_eq_ok.mp hall pattern hpattern

end ContributorGateway.RedirectPatterns
