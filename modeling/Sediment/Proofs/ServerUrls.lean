import Sediment.Cli.ServerUrls
import Mathlib.Tactic

namespace Sediment.Proofs.ServerUrls
open Sediment.Core TextMethods Urls Sediment.Cli.ServerUrls

theorem urlSchemes_contains (scheme : List Char) :
    urlSchemes.contains scheme = true ↔ scheme = "http".toList ∨ scheme = "https".toList := by
  rw [List.contains_iff_mem, urlSchemes, List.mem_cons, List.mem_singleton]

theorem http_ne_https : "http".toList ≠ "https".toList := by decide

theorem mem_of_mem_before {c d : Char} {text : List Char} (h : c ∈ before d text) : c ∈ text :=
  (List.takeWhile_prefix _).subset h

theorem mem_of_mem_behind {c d : Char} {text : List Char} (h : c ∈ behind d text) : c ∈ text := by
  have hdrop := List.mem_of_mem_tail h
  exact (List.dropWhile_suffix _).subset hdrop

theorem mem_of_mem_scheme {c : Char} {url : List Char} (h : c ∈ (splitScheme url).2) : c ∈ url := by
  unfold splitScheme at h
  dsimp only at h
  split at h
  · exact mem_of_mem_behind h
  · exact h

theorem mem_of_mem_netloc {c : Char} {url : List Char} (h : c ∈ (splitNetloc url).2) : c ∈ url := by
  unfold splitNetloc at h
  split at h
  · rename_i rest
    rw [List.span_eq_takeWhile_dropWhile] at h
    have hrest := (List.dropWhile_suffix _).subset h
    exact List.mem_cons_of_mem _ (List.mem_cons_of_mem _ hrest)
  · exact h

section
variable [UnicodeText] [IpAddresses]

/-- A query or a fragment that is there has its mark in the text. -/
theorem marks_of_split {url : List Char} {parsed : SplitResult} (h : urlsplit url = some parsed) :
    (parsed.query ≠ [] → '?' ∈ url) ∧ (parsed.fragment ≠ [] → '#' ∈ url) := by
  unfold urlsplit at h
  dsimp only at h
  split at h
  · obtain rfl := Option.some.inj h
    have hrest : ∀ {c}, c ∈ (splitNetloc (splitScheme ((url.dropWhile isControlOrSpace).filter
        (fun c => !isLineOrTab c))).2).2 → c ∈ url := by
      intro c hc
      have hkept := List.mem_of_mem_filter (mem_of_mem_scheme (mem_of_mem_netloc hc))
      exact (List.dropWhile_suffix _).subset hkept
    constructor
    · intro hquery
      by_contra hmark
      apply hquery
      exact behind_of_not_mem (fun hin => hmark (hrest (mem_of_mem_before hin)))
    · intro hfragment
      by_contra hmark
      apply hfragment
      exact behind_of_not_mem (fun hin => hmark (hrest hin))
  · exact absurd h nofun

/-- Of the two schemes one is safe by itself. -/
theorem secure_iff {scheme host : List Char} (h : urlSchemes.contains scheme) :
    ¬(scheme = "http".toList ∧ ¬isLoopbackHost host) ↔
      scheme = "https".toList ∨ isLoopbackHost host := by
  rw [not_and_or, not_not]
  apply or_congr_left
  obtain hhttp | hhttps := (urlSchemes_contains scheme).mp h
  · rw [hhttp]
    exact iff_of_false (not_not.mpr rfl) http_ne_https
  · rw [hhttps]
    exact iff_of_true http_ne_https.symm rfl

/-- The stamper asks for the same loopback hosts. -/
theorem loopback_iff (scheme host : List Char) :
    (if scheme = "https".toList ∨ UnicodeText.lower host = localhost then true
      else
        match IpAddresses.ipAddress host with
        | none => false
        | some address =>
          IpAddresses.isLoopback address &&
            (IpAddresses.isIPv4 address || IpAddresses.isOne address)) = true ↔
      scheme = "https".toList ∨ isLoopbackHost host := by
  unfold isLoopbackHost
  by_cases hscheme : scheme = "https".toList
  · rw [if_pos (Or.inl hscheme)]
    exact iff_of_true rfl (Or.inl hscheme)
  · by_cases hlocal : UnicodeText.lower host = localhost
    · rw [if_pos (Or.inr hlocal), if_pos hlocal]
      exact iff_of_true rfl (Or.inr rfl)
    · rw [if_neg (not_or.mpr ⟨hscheme, hlocal⟩), if_neg hlocal]
      exact (or_iff_right hscheme).symm

variable [Idna]

/-- The checks that the two have in common. -/
structure Shared (url : List Char) (parsed : SplitResult) (host : List Char) : Prop where
  plain : ¬url.any isControl
  split : urlsplit (stripBlanks url) = some parsed
  port : parsed.port ≠ none
  hostname : parsed.hostname = some host
  scheme : urlSchemes.contains parsed.scheme
  host_ne_nil : host ≠ []
  valid : validHost host
  username : ¬parsed.hasUsername
  password : ¬parsed.hasPassword
  path : ¬(parsed.path ≠ [] ∧ parsed.path ≠ ['/'])
  netloc : parsed.netloc.getLast? ≠ some ':'
  secure : parsed.scheme = "https".toList ∨ isLoopbackHost host

/-- The client takes a URL that passes the checks and has neither mark in it. -/
theorem validate_iff (url : List Char) : (validateServerUrl url).isSome ↔
    ∃ parsed host, Shared url parsed host ∧ '?' ∉ stripBlanks url ∧ '#' ∉ stripBlanks url := by
  unfold validateServerUrl
  constructor
  · intro h
    split at h
    · exact absurd h nofun
    rename_i hplain
    dsimp only at h
    split at h
    · exact absurd h nofun
    rename_i parsed hsplit
    split at h
    · exact absurd h nofun
    rename_i hport
    split at h
    · exact absurd h nofun
    rename_i host hhost
    split at h
    · exact absurd h nofun
    rename_i hchecks
    simp only [not_or, not_not] at hchecks
    obtain ⟨hscheme, hne, hvalid, huser, hpassword, hpath, hquery, hfragment, hnetloc, hsecure⟩ :=
      hchecks
    exact ⟨parsed, host, ⟨hplain, hsplit, hport, hhost, hscheme, hne, hvalid, huser, hpassword,
      hpath, hnetloc, (secure_iff hscheme).mp hsecure⟩, hquery, hfragment⟩
  · intro h
    obtain ⟨parsed, host, hs, hquery, hfragment⟩ := h
    have hchecks : ¬(¬urlSchemes.contains parsed.scheme ∨ host = [] ∨ ¬validHost host ∨
        parsed.hasUsername ∨ parsed.hasPassword ∨ (parsed.path ≠ [] ∧ parsed.path ≠ ['/']) ∨
        '?' ∈ stripBlanks url ∨ '#' ∈ stripBlanks url ∨ parsed.netloc.getLast? = some ':' ∨
        (parsed.scheme = "http".toList ∧ ¬isLoopbackHost host)) := by
      simp only [not_or, not_not]
      exact ⟨hs.scheme, hs.host_ne_nil, hs.valid, hs.username, hs.password, hs.path, hquery,
        hfragment, hs.netloc, (secure_iff hs.scheme).mpr hs.secure⟩
    rw [if_neg hs.plain]
    dsimp only
    rw [hs.split]
    dsimp only
    rw [if_neg hs.port, hs.hostname]
    dsimp only
    rw [if_neg hchecks]
    rfl

/-- The stamper takes one that passes them and has neither a query nor a fragment. -/
theorem safe_iff (url : List Char) : safeServerUrl url ↔
    ∃ parsed host, Shared url parsed host ∧ parsed.query = [] ∧ parsed.fragment = [] := by
  constructor
  · intro h
    unfold safeServerUrl at h
    split at h
    · exact absurd h nofun
    rename_i hplain
    split at h
    · exact absurd h nofun
    rename_i parsed hsplit
    split at h
    · exact absurd h nofun
    rename_i hport
    split at h
    · exact absurd h nofun
    rename_i host hhost
    rw [ite_eq_iff] at h
    have hsafe := (h.resolve_left (fun hrefused => absurd hrefused.2 nofun))
    obtain ⟨hchecks, hsecure⟩ := hsafe
    simp only [not_or, not_not] at hchecks
    obtain ⟨hscheme, hne, hvalid, huser, hpassword, hpath, hquery, hfragment, hnetloc⟩ := hchecks
    exact ⟨parsed, host, ⟨hplain, hsplit, hport, hhost, hscheme, hne, hvalid, huser, hpassword,
      hpath, hnetloc, (loopback_iff parsed.scheme host).mp hsecure⟩, hquery, hfragment⟩
  · intro h
    obtain ⟨parsed, host, hs, hquery, hfragment⟩ := h
    have hchecks : ¬(¬urlSchemes.contains parsed.scheme ∨ host = [] ∨ ¬validServerHost host ∨
        parsed.hasUsername ∨ parsed.hasPassword ∨ (parsed.path ≠ [] ∧ parsed.path ≠ ['/']) ∨
        parsed.query ≠ [] ∨ parsed.fragment ≠ [] ∨ parsed.netloc.getLast? = some ':') := by
      simp only [not_or, not_not]
      exact ⟨hs.scheme, hs.host_ne_nil, hs.valid, hs.username, hs.password, hs.path, hquery,
        hfragment, hs.netloc⟩
    unfold safeServerUrl
    rw [if_neg hs.plain, hs.split]
    dsimp only
    rw [if_neg hs.port, hs.hostname]
    dsimp only
    rw [if_neg hchecks]
    exact (loopback_iff parsed.scheme host).mpr hs.secure

/-- The two agree on a URL exactly when it does not pass the checks with a mark in it that has
nothing behind it. -/
theorem boundaries_agree_iff (url : List Char) :
    (safeServerUrl url ↔ (validateServerUrl url).isSome) ↔
      ∀ parsed host, Shared url parsed host → parsed.query = [] → parsed.fragment = [] →
        '?' ∉ stripBlanks url ∧ '#' ∉ stripBlanks url := by
  rw [safe_iff, validate_iff]
  constructor
  · intro hagree parsed host hs hquery hfragment
    obtain ⟨_, _, _, hmarks⟩ := hagree.mp ⟨parsed, host, hs, hquery, hfragment⟩
    exact hmarks
  · intro hplain
    constructor
    · intro h
      obtain ⟨parsed, host, hs, hquery, hfragment⟩ := h
      exact ⟨parsed, host, hs, hplain parsed host hs hquery hfragment⟩
    · intro h
      obtain ⟨parsed, host, hs, hquery, hfragment⟩ := h
      have hmarks := marks_of_split hs.split
      refine ⟨parsed, host, hs, ?_, ?_⟩
      · by_contra hne
        exact hquery (hmarks.1 hne)
      · by_contra hne
        exact hfragment (hmarks.2 hne)

end

instance asciiText : UnicodeText where
  lower := List.map Char.toLower
  nfkc := id

/-- Dotted texts are not of interest here: no name is an address. -/
instance noAddresses : IpAddresses where
  Address := Empty
  ipAddress _ := none
  isIPv4 := Empty.elim
  isLoopback := Empty.elim
  isOne := Empty.elim

instance asciiIdna : Idna where
  encode host := if host.all (fun c => c.toNat < 128) then some host else none

/-- A question mark with nothing behind it passes the stamper and not the client. -/
theorem empty_query_differs :
    safeServerUrl "https://host?".toList ∧
      ¬(validateServerUrl "https://host?".toList).isSome := by
  decide +kernel

end Sediment.Proofs.ServerUrls
