import LazyPock.Core.Error
import LazyPock.Machine.Markup

/-!
# The database address in print

`validate_database_url` and `redact_database_url` of `crates/core/src/config.rs`: the address is printed with
its password replaced. The redactor and the driver cut the same text at different characters. For the driver
the user info ends at the first `@`, whatever stands in it, and a password can be a parameter; the redactor
looks for the last `@` in front of the first `/`, `?` or `#`.

The driver is a parameter, but for the way it cuts an address. Texts are lists of characters.

## Main definitions

* `Database.validateDatabaseUrl`, `Database.redactDatabaseUrl`.
* `Database.Parts`: an address in which the redactor finds a password.
* `Database.Driver`: the reader of an address, with `Database.Driver.read`.
* `Database.SameOutside`: two addresses that differ in what the redactor takes for the password.

## Main results

* `Database.redact_eq_iff`: when two addresses are printed alike.
* `Database.redact_exact_iff`.
-/

namespace LazyPock.Database

open Text Machine.Markup List

/-! ### The two functions of the configuration -/

def schemes : List (List Char) := ["postgres".toList, "postgresql".toList]

/-- `str::strip_prefix` -/
def stripScheme (scheme url : List Char) : Option (List Char) :=
  if (scheme ++ "://".toList).isPrefixOf url then some (url.drop (scheme.length + 3)) else none

def validateDatabaseUrl (url : List Char) : Result Unit :=
  match stripScheme "postgres".toList url <|> stripScheme "postgresql".toList url with
  | none =>
    .error (.config
      "DATABASE_URL must start with postgres:// or postgresql:// (lazypock only supports Postgres)")
  | some rest =>
    if rest = [] ∨ rest.head? = some '/' then .error (.config "DATABASE_URL is missing a host") else .ok ()

/-- What ends the authority of an address. -/
def endsAuthority (c : Char) : Bool := c = '/' || c = '?' || c = '#'

def authority (rest : List Char) : List Char := rest.takeWhile (!endsAuthority ·)

def tail (rest : List Char) : List Char := rest.dropWhile (!endsAuthority ·)

/-- `str::rfind` of a character, and the text on both sides of it. -/
def splitLast (sep : Char) (cs : List Char) : Option (List Char × List Char) :=
  (splitOnceChars sep cs.reverse).map fun p => (p.2.reverse, p.1.reverse)

/-- Replace the password inside an address with `***`. -/
@[grind =]
def redactDatabaseUrl (url : List Char) : List Char :=
  match breakAt "://".toList url with
  | none => url
  | some (scheme, rest) =>
    match splitLast '@' (authority rest) with
    | none => url
    | some (credentials, host) =>
      match splitOnceChars ':' credentials with
      | none => url
      | some (user, _) =>
        scheme ++ "://".toList ++ user ++ ":***".toList ++ '@' :: host ++ tail rest

/-! ### Addresses with a password -/

/-- An address in which the redactor finds a password. -/
structure Parts where
  scheme : List Char
  user : List Char
  secret : List Char
  host : List Char
  tail : List Char
  scheme_mem : scheme ∈ schemes
  user_plain : ':' ∉ user ∧ ∀ c ∈ user, endsAuthority c = false
  secret_plain : ∀ c ∈ secret, endsAuthority c = false
  host_plain : '@' ∉ host ∧ ∀ c ∈ host, endsAuthority c = false
  tail_ends : ∀ c ∈ tail.head?, endsAuthority c = true

namespace Parts

/-- The address behind its scheme. -/
def rest (p : Parts) : List Char := (p.user ++ ':' :: p.secret) ++ '@' :: p.host ++ p.tail

/-- The address. -/
def text (p : Parts) : List Char := p.scheme ++ "://".toList ++ p.rest

/-- The address with another password. -/
def withSecret (p : Parts) (secret : List Char) (h : ∀ c ∈ secret, endsAuthority c = false) : Parts :=
  { p with secret := secret, secret_plain := h }

/-- The address as it is printed. -/
def printed (p : Parts) : Parts := p.withSecret "***".toList (by decide)

/-- All that is printed of the address. -/
def SameOutside (p p' : Parts) : Prop :=
  p.scheme = p'.scheme ∧ p.user = p'.user ∧ p.host = p'.host ∧ p.tail = p'.tail

end Parts

/-- The addresses are the same, or they differ in a password that the redactor finds. -/
def SameOutside (url url' : List Char) : Prop :=
  url = url' ∨ ∃ p p' : Parts, p.text = url ∧ p'.text = url' ∧ p.SameOutside p'

/-! ### What the redactor finds -/

section Cuts

variable {sep : Char} {rest before after scheme url url' : List Char}

theorem splitLast_append (h : sep ∉ after) :
    splitLast sep (before ++ sep :: after) = some (before, after) := by
  have hreverse : (before ++ sep :: after).reverse = after.reverse ++ sep :: before.reverse := by simp
  rw [splitLast, hreverse, splitOnceChars_append (by simpa using h), Option.map_some,
    reverse_reverse, reverse_reverse]

theorem splitLast_eq_some {cs : List Char} (h : splitLast sep cs = some (before, after)) :
    cs = before ++ sep :: after ∧ sep ∉ after := by
  obtain ⟨p, hp, heq⟩ := Option.map_eq_some_iff.mp h
  obtain ⟨rfl, rfl⟩ : p.2.reverse = before ∧ p.1.reverse = after := by simpa using heq
  have hcs := congrArg List.reverse (splitOnceChars_eq_some hp)
  exact ⟨by simpa using hcs, by simpa using notMem_of_splitOnceChars hp⟩

theorem authority_append (h : ∀ c ∈ before, endsAuthority c = false) :
    authority (before ++ rest) = before ++ authority rest :=
  takeWhile_append_of_pos (by simpa using h)

theorem authority_of_ends (h : ∀ c ∈ rest.head?, endsAuthority c = true) : authority rest = [] := by
  cases rest with
  | nil => rfl
  | cons c cs => rw [authority, takeWhile_cons, h c rfl]; rfl

theorem authority_append_tail (rest : List Char) : authority rest ++ tail rest = rest :=
  takeWhile_append_dropWhile

theorem plain_of_mem_authority {c : Char} (h : c ∈ authority rest) : endsAuthority c = false := by
  simpa using mem_takeWhile_imp h

theorem tail_ends (rest : List Char) : ∀ c ∈ (tail rest).head?, endsAuthority c = true := by
  intro c hc
  have hnot := List.head?_dropWhile_not (!endsAuthority ·) rest
  rw [tail] at hc
  rw [Option.mem_def.mp hc] at hnot
  simpa using hnot

theorem breakAt_scheme (h : scheme ∈ schemes) :
    breakAt "://".toList (scheme ++ "://".toList ++ rest) = some (scheme, rest) := by
  have hplain : ':' ∉ scheme := by
    rcases mem_pair.mp h with rfl | rfl <;> decide
  have hstop : breakAt "://".toList ("://".toList ++ rest) = some ([], rest) :=
    breakAt_pattern (by decide)
  rw [append_assoc]
  have hpass : breakAt "://".toList (scheme ++ ("://".toList ++ rest)) =
      (breakAt "://".toList ("://".toList ++ rest)).map fun p => (scheme ++ p.1, p.2) :=
    breakAt_append hplain
  rw [hpass, hstop, Option.map_some, append_nil]

end Cuts

namespace Parts

variable {p p' : Parts}

theorem authority_rest (p : Parts) : authority p.rest = (p.user ++ ':' :: p.secret) ++ '@' :: p.host := by
  have hplain : ∀ c ∈ (p.user ++ ':' :: p.secret) ++ '@' :: p.host, endsAuthority c = false := by
    simp only [mem_append, mem_cons]
    rintro c ((hc | rfl | hc) | rfl | hc)
    · exact p.user_plain.2 c hc
    · rfl
    · exact p.secret_plain c hc
    · rfl
    · exact p.host_plain.2 c hc
  rw [rest, authority_append hplain, authority_of_ends p.tail_ends, append_nil]

theorem tail_rest (p : Parts) : Database.tail p.rest = p.tail := by
  have hrest : authority p.rest ++ Database.tail p.rest = authority p.rest ++ p.tail := by
    rw [authority_append_tail, authority_rest, rest]
  exact append_cancel_left hrest

theorem breakAt_text (p : Parts) : breakAt "://".toList p.text = some (p.scheme, p.rest) :=
  breakAt_scheme p.scheme_mem

theorem splitLast_rest (p : Parts) :
    splitLast '@' (authority p.rest) = some (p.user ++ ':' :: p.secret, p.host) := by
  rw [authority_rest, splitLast_append p.host_plain.1]

theorem splitOnce_credentials (p : Parts) :
    splitOnceChars ':' (p.user ++ ':' :: p.secret) = some (p.user, p.secret) :=
  splitOnceChars_append p.user_plain.1

/-- An address has one password. -/
theorem eq_of_text_eq (h : p.text = p'.text) : p.SameOutside p' ∧ p.secret = p'.secret := by
  have hrest : some (p.scheme, p.rest) = some (p'.scheme, p'.rest) := by
    rw [← breakAt_text, h, breakAt_text]
  obtain ⟨hscheme, hrest⟩ : p.scheme = p'.scheme ∧ p.rest = p'.rest := by simpa using hrest
  have hcredentials : some (p.user ++ ':' :: p.secret, p.host) =
      some (p'.user ++ ':' :: p'.secret, p'.host) := by
    rw [← splitLast_rest, hrest, splitLast_rest]
  obtain ⟨hcredentials, hhost⟩ : p.user ++ ':' :: p.secret = p'.user ++ ':' :: p'.secret ∧
      p.host = p'.host := by
    simpa only [Option.some.injEq, Prod.mk.injEq] using hcredentials
  have huser : some (p.user, p.secret) = some (p'.user, p'.secret) := by
    rw [← splitOnce_credentials, hcredentials, splitOnce_credentials]
  obtain ⟨huser, hsecret⟩ : p.user = p'.user ∧ p.secret = p'.secret := by simpa using huser
  exact ⟨⟨hscheme, huser, hhost, by rw [← tail_rest, hrest, tail_rest]⟩, hsecret⟩

theorem text_printed_eq_iff : p.printed.text = p'.printed.text ↔ p.SameOutside p' := by
  constructor
  · exact fun h => (eq_of_text_eq h).1
  · rintro ⟨hscheme, huser, hhost, htail⟩
    simp only [text, rest, printed, withSecret, hscheme, huser, hhost, htail]

/-- **What is printed** of an address with a password. -/
theorem redactDatabaseUrl_text (p : Parts) : redactDatabaseUrl p.text = p.printed.text := by
  rw [redactDatabaseUrl, breakAt_text]
  simp only [splitLast_rest, splitOnce_credentials, tail_rest]
  simp only [text, rest, printed, withSecret, append_assoc, cons_append]
  rfl

end Parts

/-- The address begins with a scheme. -/
def HasScheme (url : List Char) : Prop := ∃ scheme ∈ schemes, ∃ rest, url = scheme ++ "://".toList ++ rest

section Printing

variable {url url' scheme rest : List Char}

theorem stripScheme_eq_some (h : stripScheme scheme url = some rest) :
    url = scheme ++ "://".toList ++ rest := by
  rw [stripScheme] at h
  split_ifs at h with hprefix
  obtain ⟨after, rfl⟩ := isPrefixOf_iff_prefix.mp hprefix
  have hlength : (scheme ++ "://".toList).length = scheme.length + 3 := by simp
  rw [← hlength, drop_left] at h
  rw [Option.some.inj h]

/-- What an accepted address begins with. -/
theorem hasScheme_of_valid (h : validateDatabaseUrl url = .ok ()) : HasScheme url := by
  rw [validateDatabaseUrl] at h
  cases hfirst : stripScheme "postgres".toList url with
  | some rest => exact ⟨_, by decide, rest, stripScheme_eq_some hfirst⟩
  | none =>
    cases hsecond : stripScheme "postgresql".toList url with
    | some rest => exact ⟨_, by decide, rest, stripScheme_eq_some hsecond⟩
    | none =>
      rw [hfirst, hsecond] at h
      cases h

/-- An address in which the redactor finds no password is printed as it is. -/
theorem redactDatabaseUrl_cases (h : HasScheme url) :
    (∃ p : Parts, p.text = url) ∨ (redactDatabaseUrl url = url ∧ ∀ p : Parts, p.text ≠ url) := by
  obtain ⟨scheme, hscheme, rest, rfl⟩ := h
  cases hat : splitLast '@' (authority rest) with
  | none =>
    refine .inr ⟨by rw [redactDatabaseUrl, breakAt_scheme hscheme]; simp only [hat], fun p hp => ?_⟩
    have hrest := p.breakAt_text
    rw [hp, breakAt_scheme hscheme] at hrest
    obtain ⟨-, rfl⟩ : scheme = p.scheme ∧ rest = p.rest := by simpa using hrest
    rw [p.splitLast_rest] at hat
    cases hat
  | some cut =>
    obtain ⟨credentials, host⟩ := cut
    cases hcolon : splitOnceChars ':' credentials with
    | none =>
      refine .inr ⟨by rw [redactDatabaseUrl, breakAt_scheme hscheme]; simp only [hat, hcolon], fun p hp => ?_⟩
      have hrest := p.breakAt_text
      rw [hp, breakAt_scheme hscheme] at hrest
      obtain ⟨-, rfl⟩ : scheme = p.scheme ∧ rest = p.rest := by simpa using hrest
      rw [p.splitLast_rest] at hat
      obtain ⟨rfl, -⟩ : p.user ++ ':' :: p.secret = credentials ∧ p.host = host := by
        simpa only [Option.some.injEq, Prod.mk.injEq] using hat
      rw [p.splitOnce_credentials] at hcolon
      cases hcolon
    | some cut =>
      obtain ⟨user, secret⟩ := cut
      obtain ⟨hauthority, hhost⟩ := splitLast_eq_some hat
      have hcredentials := splitOnceChars_eq_some hcolon
      have hplain : ∀ c ∈ (user ++ ':' :: secret) ++ '@' :: host, endsAuthority c = false := by
        rw [← hcredentials, ← hauthority]
        exact fun c hc => plain_of_mem_authority hc
      refine .inl ⟨{ scheme, user, secret, host, tail := tail rest, scheme_mem := hscheme
                     user_plain := ⟨notMem_of_splitOnceChars hcolon, fun c hc => hplain c (by simp [hc])⟩
                     secret_plain := fun c hc => hplain c (by simp [hc])
                     host_plain := ⟨hhost, fun c hc => hplain c (by simp [hc])⟩
                     tail_ends := tail_ends rest }, ?_⟩
      have hrest : (user ++ ':' :: secret) ++ '@' :: host ++ tail rest = rest := by
        rw [← hcredentials, ← hauthority, authority_append_tail]
      rw [Parts.text, Parts.rest, hrest]

/-- **When two addresses are printed alike.** -/
theorem redact_eq_iff (h : HasScheme url) (h' : HasScheme url') :
    redactDatabaseUrl url = redactDatabaseUrl url' ↔ SameOutside url url' := by
  rcases redactDatabaseUrl_cases h with ⟨p, rfl⟩ | ⟨hkept, hnone⟩
  · rcases redactDatabaseUrl_cases h' with ⟨p', rfl⟩ | ⟨hkept', hnone'⟩
    · rw [p.redactDatabaseUrl_text, p'.redactDatabaseUrl_text, Parts.text_printed_eq_iff]
      constructor
      · exact fun hsame => .inr ⟨p, p', rfl, rfl, hsame⟩
      · rintro (heq | ⟨q, q', hq, hq', hsame⟩)
        · exact (Parts.eq_of_text_eq heq).1
        · have hp := (Parts.eq_of_text_eq hq).1
          have hp' := (Parts.eq_of_text_eq hq').1
          simp only [Parts.SameOutside] at hsame hp hp' ⊢
          grind
    · rw [hkept', p.redactDatabaseUrl_text]
      constructor
      · exact fun heq => absurd heq (hnone' _)
      · rintro (heq | ⟨-, q', -, hq', -⟩)
        · exact absurd heq (hnone' p)
        · exact absurd hq' (hnone' q')
  · rw [hkept]
    rcases redactDatabaseUrl_cases h' with ⟨p', rfl⟩ | ⟨hkept', -⟩
    · rw [p'.redactDatabaseUrl_text]
      constructor
      · exact fun heq => absurd heq.symm (hnone _)
      · rintro (heq | ⟨q, -, hq, -, -⟩)
        · exact absurd heq.symm (hnone p')
        · exact absurd hq (hnone q)
    · rw [hkept']
      constructor
      · exact .inl
      · rintro (heq | ⟨q, -, hq, -, -⟩)
        · exact heq
        · exact absurd hq (hnone q)

/-- An address that is printed as it is. -/
theorem redact_eq_self_iff (h : HasScheme url) :
    redactDatabaseUrl url = url ↔ ∀ p : Parts, p.text = url → p.secret = "***".toList := by
  rcases redactDatabaseUrl_cases h with ⟨p, rfl⟩ | ⟨hkept, hnone⟩
  · rw [p.redactDatabaseUrl_text]
    constructor
    · intro heq q hq
      rw [← (Parts.eq_of_text_eq (heq.trans hq.symm)).2]
      rfl
    · intro hsecret
      have hstars := hsecret p rfl
      simp only [Parts.text, Parts.rest, Parts.printed, Parts.withSecret, hstars]
  · exact iff_of_true hkept fun p hp => absurd hp (hnone p)

end Printing

/-! ### What the driver finds -/

/-- The driver: how it decodes a text, and the configuration it builds of a user, the text of the hosts and
the path, and the parameters. -/
structure Driver (Config : Type) where
  decode : List Char → Option (List Char)
  build : Option (List Char) → List Char → List (List Char × List Char) → Option Config

namespace Driver

variable {Config : Type} (driver : Driver Config) {url url' : List Char}

/-- The user and the password of a user info, which is split at its first `:`. -/
def userInfo : Option (List Char) → Option (Option (List Char) × Option (List Char))
  | none => some (none, none)
  | some info =>
    match splitOnceChars ':' info with
    | none => (driver.decode info).map fun user => (some user, none)
    | some (user, password) => do
      let user ← driver.decode user
      let password ← driver.decode password
      pure (some user, some password)

/-- A parameter: a key and a value with `=` between them. -/
def parameter (pair : List Char) : Option (List Char × List Char) := do
  let (key, value) ← splitOnceChars '=' pair
  let key ← driver.decode key
  let value ← driver.decode value
  pure (key, value)

/-- The parameters behind `?`. -/
def parameters : Option (List Char) → Option (List (List Char × List Char))
  | none | some [] => some []
  | some query => (splitChars '&' query).mapM driver.parameter

def passwordKey : List Char := "password".toList

/-- The driver reads an address: its configuration, and the password. The user info is the text in front of
the first `@`, and the last `password` among the parameters wins. -/
def read (url : List Char) : Option (Config × Option (List Char)) := do
  let rest ← stripScheme "postgres".toList url <|> stripScheme "postgresql".toList url
  let (info, rest) := match splitOnceChars '@' rest with
    | none => (none, rest)
    | some (info, rest) => (some info, rest)
  let (user, password) ← driver.userInfo info
  let (address, query) := match splitOnceChars '?' rest with
    | none => (rest, none)
    | some (address, query) => (address, some query)
  let params ← driver.parameters query
  let config ← driver.build user address (params.filter (·.1 ≠ passwordKey))
  pure (config, ((params.filter (·.1 = passwordKey)).getLast?.map Prod.snd) <|> password)

/-- The same configuration, apart from a password that is not empty. -/
def SameButPassword (url url' : List Char) : Prop :=
  ∃ config password password', driver.read url = some (config, some password) ∧
    driver.read url' = some (config, some password') ∧ password ≠ [] ∧ password' ≠ []

/-- An address without a password. -/
def NoPassword (url : List Char) : Prop := ∃ config, driver.read url = some (config, none)

end Driver

/-- **Printing an address hides its password exactly when the redactor finds it.** Two addresses that the
driver reads as the same configuration apart from the password are printed alike exactly when they are the
same text outside what the redactor takes for the password, and an address without a password is printed as
it is exactly when the redactor takes nothing for one. -/
theorem redact_exact_iff {Config : Type} (driver : Driver Config) (url url' : List Char)
    (h : validateDatabaseUrl url = .ok ()) (h' : validateDatabaseUrl url' = .ok ()) :
    (driver.SameButPassword url url' →
      (redactDatabaseUrl url = redactDatabaseUrl url' ↔ SameOutside url url')) ∧
    (driver.NoPassword url →
      (redactDatabaseUrl url = url ↔ ∀ p : Parts, p.text = url → p.secret = "***".toList)) := by
  have hscheme := hasScheme_of_valid h
  exact ⟨fun _ => redact_eq_iff hscheme (hasScheme_of_valid h'), fun _ => redact_eq_self_iff hscheme⟩

/-- A driver that decodes nothing, and whose configuration is what it reads. -/
def literalDriver : Driver (Option (List Char) × List Char × List (List Char × List Char)) where
  decode := some
  build user address params := some (user, address, params)

/-- An address with a password. -/
def encodedPassword : Parts where
  scheme := "postgres".toList
  user := "u".toList
  secret := "one".toList
  host := "h".toList
  tail := "/db".toList
  scheme_mem := by decide
  user_plain := by decide
  secret_plain := by decide
  host_plain := by decide
  tail_ends _ hc := Option.some.inj hc ▸ rfl

theorem passwords_hidden :
    redactDatabaseUrl "postgres://u:one@h/db".toList = redactDatabaseUrl "postgres://u:two@h/db".toList ∧
      redactDatabaseUrl "postgres://u@h/db".toList = "postgres://u@h/db".toList := by
  have hsame := (redact_exact_iff literalDriver "postgres://u:one@h/db".toList "postgres://u:two@h/db".toList
    (by decide) (by decide)).1
  have hnone := (redact_exact_iff literalDriver "postgres://u@h/db".toList "postgres://u@h/db".toList
    (by decide) (by decide)).2
  refine ⟨(hsame ?_).mpr ?_, (hnone ?_).mpr ?_⟩
  · exact ⟨(some "u".toList, "h/db".toList, []), "one".toList, "two".toList, rfl, rfl, by decide, by decide⟩
  · exact .inr ⟨encodedPassword, encodedPassword.withSecret "two".toList (by decide), rfl, rfl,
      rfl, rfl, rfl, rfl⟩
  · exact ⟨(some "u".toList, "h/db".toList, []), rfl⟩
  · intro p hp
    have hrest := p.breakAt_text
    have hcut : breakAt "://".toList "postgres://u@h/db".toList =
        some ("postgres".toList, "u@h/db".toList) := by decide
    rw [hp, hcut] at hrest
    have hcolon : ':' ∈ p.rest := by simp [Parts.rest]
    rw [← (Prod.mk.inj (Option.some.inj hrest)).2] at hcolon
    exact absurd hcolon (by decide)

/-- A password with `/` in it is printed. -/
theorem slash_printed :
    ¬ ∀ url url' : List Char, validateDatabaseUrl url = .ok () → validateDatabaseUrl url' = .ok () →
      literalDriver.SameButPassword url url' → redactDatabaseUrl url = redactDatabaseUrl url' := by
  intro hclaim
  have hsame := hclaim "postgres://u:a/b@h/db".toList "postgres://u:c/d@h/db".toList (by decide) (by decide)
    ⟨(some "u".toList, "h/db".toList, []), "a/b".toList, "c/d".toList, rfl, rfl, by decide, by decide⟩
  exact absurd hsame (by decide)

end LazyPock.Database
