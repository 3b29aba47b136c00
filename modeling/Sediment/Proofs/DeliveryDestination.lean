import Sediment.Proofs.DeliveryIdentity
import Sediment.Proofs.ServerUrls

namespace Sediment.Proofs.DeliveryDestination
open Base Decimals
open Sediment.Core TextMethods Urls
open Cli.Delivery
open ServerUrls (mem_of_mem_before mem_of_mem_behind mem_of_mem_scheme)

/-- The characters whose lower case is one of ASCII: those of ASCII, and the sign of Kelvin. -/
def lowerAscii (c : Char) : Char := if c = '\u212A' then 'k' else c.toLower

/-- What `str.lower` does to a text of ASCII, and to a text that it makes one. -/
structure LowerCase [UnicodeText] : Prop where
  ascii : ∀ s : List Char, (∀ c ∈ s, c.toNat < 128) → UnicodeText.lower s = s.map Char.toLower
  asciiResult : ∀ s : List Char, (∀ c ∈ UnicodeText.lower s, c.toNat < 128) →
    UnicodeText.lower s = s.map lowerAscii

/-- An address is read alike in either case, and begins with no letter behind `f`. -/
structure AddressCase [UnicodeText] [IpAddresses] : Prop where
  lowerHost : ∀ host, IpAddresses.ipAddress (lowerHost host) = IpAddresses.ipAddress host
  noVersion : ∀ rest, IpAddresses.ipAddress ('V' :: rest) = none

theorem isUpper_iff {c : Char} : c.isUpper = true ↔ 65 ≤ c.toNat ∧ c.toNat ≤ 90 := by
  simp only [Char.isUpper, decide_eq_true_eq, ge_iff_le, UInt32.le_iff_toNat_le]
  rfl

theorem toLower_of_not {c : Char} (h : ¬(65 ≤ c.toNat ∧ c.toNat ≤ 90)) : c.toLower = c :=
  Char.toLower_eq_of_not_isUpper (fun hu => h (isUpper_iff.mp hu))

theorem toLower_of {c : Char} (h : 65 ≤ c.toNat ∧ c.toNat ≤ 90) :
    c.toLower.toNat = c.toNat + 32 := by
  rw [Char.toLower_eq_of_isUpper (isUpper_iff.mpr h), Char.toNat_ofNat, if_pos]
  left
  omega

/-- A character kept, or put in lower case. -/
inductive Lowers (c d : Char) : Prop where
  | keep (h : d = c)
  | lower (h : d = lowerAscii c)

/-- Nothing but a letter is put in lower case, and only to a letter. -/
theorem Lowers.cases {c d : Char} (h : Lowers c d) :
    d = c ∨ (97 ≤ d.toNat ∧ d.toNat ≤ 122 ∧ (d.toNat = c.toNat + 32 ∨ c = '\u212A' ∧ d = 'k')) := by
  obtain rfl | rfl := h
  · exact Or.inl rfl
  · unfold lowerAscii
    split
    · rename_i hk
      exact Or.inr ⟨by decide, by decide, Or.inr ⟨hk, rfl⟩⟩
    · by_cases hu : 65 ≤ c.toNat ∧ c.toNat ≤ 90
      · have := toLower_of hu
        exact Or.inr ⟨by omega, by omega, Or.inl this⟩
      · exact Or.inl (toLower_of_not hu)

/-- A character that is no letter of lower case comes from itself alone. -/
theorem Lowers.of_plain {c d : Char} (h : Lowers c d) (hd : ¬(97 ≤ d.toNat ∧ d.toNat ≤ 122)) :
    d = c := by
  rcases h.cases with h | h
  · exact h
  · exact absurd ⟨h.1, h.2.1⟩ hd

theorem hex_lower_ascii : ∀ n < 128, isHexDigit (Char.ofNat n) = true →
    isHexDigit (lowerAscii (Char.ofNat n)) = true := by decide

theorem isHexDigit_ascii {c : Char} (h : isHexDigit c = true) : c.toNat < 128 := by
  simp only [isHexDigit, Char.isDigit, Bool.or_eq_true, Bool.and_eq_true, decide_eq_true_eq,
    ge_iff_le] at h
  rcases h with (h | h) | h <;> exact lt_of_le_of_lt (UInt32.le_iff_toNat_le.mp h.2) (by decide)

theorem Lowers.hex {c d : Char} (h : Lowers c d) (hc : isHexDigit c = true) :
    isHexDigit d = true := by
  obtain rfl | rfl := h
  · exact hc
  · have hlow := hex_lower_ascii c.toNat (isHexDigit_ascii hc)
    rw [Char.ofNat_toNat] at hlow
    exact hlow hc

theorem mem_of_lowers {host low : List Char} (h : List.Forall₂ Lowers host low) {d : Char}
    (hd : d ∈ low) : ∃ c ∈ host, Lowers c d := by
  induction h with
  | nil => cases hd
  | cons hc hrest ih =>
    rcases List.mem_cons.mp hd with rfl | hd
    · exact ⟨_, by simp, hc⟩
    · obtain ⟨c, hm, hl⟩ := ih hd
      exact ⟨c, by simp [hm], hl⟩

theorem plain_mem_of_lowers {host low : List Char} (h : List.Forall₂ Lowers host low) {d : Char}
    (hd : d ∈ low) (hp : ¬(97 ≤ d.toNat ∧ d.toNat ≤ 122)) : d ∈ host := by
  obtain ⟨c, hm, hl⟩ := mem_of_lowers h hd
  exact hl.of_plain hp ▸ hm

section
variable [UnicodeText] {host : List Char}

/-- A host that comes out in ASCII is the parsed one, character by character. -/
theorem lowers_lowerHost (hl : LowerCase) (h : ∀ c ∈ lowerHost host, c.toNat < 128) :
    List.Forall₂ Lowers host (lowerHost host) := by
  have hfront : UnicodeText.lower (before '%' host) = (before '%' host).map lowerAscii :=
    hl.asciiResult _ (fun c hc => h c (List.mem_append_left _ hc))
  have hself : ∀ l : List Char, List.Forall₂ Lowers l l :=
    fun l => List.forall₂_same.mpr (fun c _ => .keep rfl)
  have hmap : ∀ l : List Char, List.Forall₂ Lowers l (l.map lowerAscii) := fun l => by
    rw [List.forall₂_map_right_iff]
    exact List.forall₂_same.mpr (fun c _ => .lower rfl)
  have happ := List.rel_append (hmap (before '%' host)) (hself (host.dropWhile (· ≠ '%')))
  rw [lowerHost, hfront]
  have hwhole : before '%' host ++ host.dropWhile (· ≠ '%') = host :=
    List.takeWhile_append_dropWhile
  beta_reduce at happ
  rwa [hwhole] at happ

/-- Putting a host in lower case a second time changes nothing. -/
theorem lowerHost_idem (hl : LowerCase) (h : ∀ c ∈ lowerHost host, c.toNat < 128) :
    lowerHost (lowerHost host) = lowerHost host := by
  have hfront : UnicodeText.lower (before '%' host) = (before '%' host).map lowerAscii :=
    hl.asciiResult _ (fun c hc => h c (List.mem_append_left _ hc))
  have hnone : '%' ∉ UnicodeText.lower (before '%' host) := by
    intro hm
    rw [hfront, List.mem_map] at hm
    obtain ⟨c, hc, hcl⟩ := hm
    have heq := (Lowers.lower hcl.symm).of_plain (c := c) (d := '%') (by decide)
    have hne := List.mem_takeWhile_imp hc
    simp [← heq] at hne
  have hsplit : before '%' (lowerHost host) = UnicodeText.lower (before '%' host) ∧
      (lowerHost host).dropWhile (· ≠ '%') = host.dropWhile (· ≠ '%') := by
    have hpos : ∀ c ∈ UnicodeText.lower (before '%' host), decide (c ≠ '%') = true :=
      fun c hc => by simpa using fun he : c = '%' => hnone (he ▸ hc)
    constructor
    · rw [before, lowerHost, List.takeWhile_append_of_pos hpos]
      have hrest : (host.dropWhile (· ≠ '%')).takeWhile (· ≠ '%') = [] := by
        cases hd : host.dropWhile (· ≠ '%') with
        | nil => rfl
        | cons c tail =>
          have hhead := List.head?_dropWhile_not (· ≠ '%') host
          rw [hd] at hhead
          rw [List.takeWhile_cons_of_neg]
          simpa using hhead
      rw [hrest, List.append_nil]
    · rw [lowerHost, List.dropWhile_append_of_pos hpos]
      exact List.dropWhile_idempotent _ _
  have hfix : UnicodeText.lower (UnicodeText.lower (before '%' host)) =
      UnicodeText.lower (before '%' host) := by
    rw [hl.ascii _ (fun c hc => h c (List.mem_append_left _ hc)), hfront, List.map_map]
    apply List.map_congr_left
    intro c hc
    simp only [Function.comp_apply, lowerAscii]
    split
    · rfl
    · exact Char.toLower_toLower_eq_toLower c
  conv_lhs => rw [lowerHost, hsplit.1, hsplit.2, hfix]
  rfl

end

theorem forall₂_append_left {α β : Type*} {R : α → β → Prop} {a b : List α} {l : List β}
    (h : List.Forall₂ R (a ++ b) l) :
    ∃ x y, l = x ++ y ∧ List.Forall₂ R a x ∧ List.Forall₂ R b y := by
  induction a generalizing l with
  | nil => exact ⟨[], l, rfl, .nil, h⟩
  | cons c a ih =>
    obtain ⟨d, rest, hcd, hrest, rfl⟩ := List.forall₂_cons_left_iff.mp h
    obtain ⟨x, y, rfl, hx, hy⟩ := ih hrest
    exact ⟨d :: x, y, rfl, .cons hcd hx, hy⟩

theorem isFutureAddress_iff {host : List Char} : isFutureAddress host = true ↔
    ∃ version tail, host = 'v' :: (version ++ '.' :: tail) ∧ version ≠ [] ∧
      (∀ c ∈ version, isHexDigit c = true) ∧ tail ≠ [] ∧ '\n' ∉ tail := by
  constructor
  · intro h
    unfold isFutureAddress at h
    split at h
    · rename_i rest
      simp only [Bool.and_eq_true, decide_eq_true_eq, beq_iff_eq, Bool.not_eq_true',
        List.contains_eq_mem, decide_eq_false_iff_not, ne_eq] at h
      obtain ⟨⟨⟨hver, hdot⟩, htail⟩, hline⟩ := h
      refine ⟨rest.takeWhile isHexDigit, (rest.dropWhile isHexDigit).tail, ?_, hver,
        fun c hc => List.mem_takeWhile_imp hc, htail, hline⟩
      rw [List.cons_eq_cons]
      refine ⟨rfl, ?_⟩
      obtain ⟨c, t, hct⟩ : ∃ c t, rest.dropWhile isHexDigit = c :: t := by
        cases hd : rest.dropWhile isHexDigit with
        | nil => rw [hd] at hdot; cases hdot
        | cons c t => exact ⟨c, t, rfl⟩
      rw [hct] at hdot ⊢
      obtain rfl := Option.some.inj hdot
      rw [List.tail_cons, ← hct, List.takeWhile_append_dropWhile]
    · cases h
  · rintro ⟨version, tail, rfl, hver, hhex, htail, hline⟩
    have hdot : isHexDigit '.' = false := by decide
    have htake : (version ++ '.' :: tail).takeWhile isHexDigit = version := by
      rw [List.takeWhile_append_of_pos hhex, List.takeWhile_cons_of_neg (by simp [hdot]),
        List.append_nil]
    have hdrop : (version ++ '.' :: tail).dropWhile isHexDigit = '.' :: tail := by
      rw [List.dropWhile_append_of_pos hhex, List.dropWhile_cons_of_neg (by simp [hdot])]
    simp [isFutureAddress, htake, hdrop, hver, htail, hline]

/-- An address of a future version stays one in lower case. -/
theorem isFutureAddress_lowers {host low : List Char} (h : List.Forall₂ Lowers host low)
    (hf : isFutureAddress host = true) : isFutureAddress low = true := by
  obtain ⟨version, tail, rfl, hver, hhex, htail, hline⟩ := isFutureAddress_iff.mp hf
  obtain ⟨v, rest, hv, hrest, rfl⟩ := List.forall₂_cons_left_iff.mp h
  obtain ⟨version', behind, rfl, hversion, hbehind⟩ := forall₂_append_left hrest
  obtain ⟨dot, tail', hdot, htail', rfl⟩ := List.forall₂_cons_left_iff.mp hbehind
  have hself : v = 'v' ∧ dot = '.' := by
    constructor
    · obtain rfl | rfl := hv <;> rfl
    · obtain rfl | rfl := hdot <;> rfl
  rw [isFutureAddress_iff]
  refine ⟨version', tail', by rw [hself.1, hself.2], ?_, ?_, ?_, ?_⟩
  · rintro rfl
    exact hver (List.forall₂_nil_right_iff.mp hversion)
  · intro d hd
    obtain ⟨c, hc, hl⟩ := mem_of_lowers hversion hd
    exact hl.hex (hhex c hc)
  · rintro rfl
    exact htail (List.forall₂_nil_right_iff.mp htail')
  · intro hd
    exact hline (plain_mem_of_lowers htail' hd (by decide))

section
variable [UnicodeText] [IpAddresses] {host : List Char}

/-- What may stand between brackets may stand there in lower case. -/
theorem checkBracketedHost_lower (hl : LowerCase) (ha : AddressCase)
    (h : ∀ c ∈ lowerHost host, c.toNat < 128) (hc : checkBracketedHost host = true) :
    checkBracketedHost (lowerHost host) = true := by
  have hlow := lowers_lowerHost hl h
  unfold checkBracketedHost at hc ⊢
  split at hc
  · rename_i hv
    obtain ⟨rest, rfl⟩ := hv
    obtain ⟨v, rest', hv, -, heq⟩ := List.forall₂_cons_left_iff.mp hlow
    have hself : v = 'v' := by obtain rfl | rfl := hv <;> rfl
    rw [if_pos ⟨rest', by rw [heq, hself]; rfl⟩]
    exact isFutureAddress_lowers hlow hc
  · rename_i hnot
    rw [if_neg, ha.lowerHost]
    · exact hc
    · rintro ⟨rest', heq⟩
      cases host with
      | nil =>
        have := hlow.length_eq
        rw [← heq] at this
        cases this
      | cons c rest =>
        rw [← heq] at hlow
        obtain ⟨hcv, -⟩ := List.forall₂_cons.mp hlow
        rcases hcv.cases with h' | ⟨-, -, h' | ⟨-, h'⟩⟩
        · exact hnot ⟨rest, by rw [← h']; rfl⟩
        · have hV : c = 'V' := Char.toNat_inj.mp (by
            have : ('v' : Char).toNat = 118 := rfl
            have : ('V' : Char).toNat = 86 := rfl
            omega)
          rw [hV, ha.noVersion] at hc
          cases hc
        · cases h'

end

theorem mem_of_mem_behindLast {c d : Char} {text : List Char} (h : c ∈ behindLast d text) :
    c ∈ text := (List.rtakeWhile_suffix _ _).mem h

theorem mem_hostinfo {u : SplitResult} {c : Char} (h : c ∈ u.hostinfo.1) : c ∈ u.netloc := by
  unfold SplitResult.hostinfo at h
  simp only at h
  split at h
  · exact mem_of_mem_behindLast (mem_of_mem_behind (mem_of_mem_before h))
  · exact mem_of_mem_behindLast (mem_of_mem_before h)

theorem port_le {u : SplitResult} {port : Option Nat} (h : u.port = some port) :
    ∀ n, port = some n → n ≤ 65535 := by
  intro n hn
  subst hn
  unfold SplitResult.port at h
  simp only at h
  split at h
  · cases h
  · split at h
    · split at h
      · split at h
        · rename_i hle
          cases h
          exact hle
        · cases h
      · cases h
    · cases h

/-- Without a name of a user before it, the host between brackets is what was checked there, and
one without brackets holds no colon. -/
theorem hostinfo_bracketed [IpAddresses] {u : SplitResult} (hat : '@' ∉ u.netloc)
    (hbal : '[' ∈ u.netloc ↔ ']' ∈ u.netloc)
    (hb : '[' ∈ u.netloc → checkBracketedNetloc u.netloc = true) :
    ']' ∉ u.hostinfo.1 ∧ (':' ∈ u.hostinfo.1 → checkBracketedHost u.hostinfo.1 = true) := by
  have hlast : behindLast '@' u.netloc = u.netloc := behindLast_of_not_mem hat
  unfold SplitResult.hostinfo
  simp only [hlast]
  split
  · rename_i hin
    have hcheck := hb hin
    unfold checkBracketedNetloc at hcheck
    simp only [hlast, hin, if_true, Bool.and_eq_true] at hcheck
    refine ⟨?_, fun _ => hcheck.2⟩
    intro hm
    simpa using List.mem_takeWhile_imp hm
  · rename_i hout
    refine ⟨fun hm => hout (hbal.mpr (mem_of_mem_before hm)), ?_⟩
    intro hm
    have hne := List.mem_takeWhile_imp hm
    simp at hne

theorem netloc_mem {url : List Char} {c : Char} (h : c ∈ (splitNetloc url).1) :
    c ∈ url ∧ isDelimiter c = false := by
  unfold splitNetloc at h
  split at h
  · rename_i rest
    rw [List.span_eq_takeWhile_dropWhile] at h
    refine ⟨?_, by simpa using List.mem_takeWhile_imp h⟩
    exact List.mem_cons_of_mem _ (List.mem_cons_of_mem _ ((List.takeWhile_prefix _).mem h))
  · cases h

section
variable [UnicodeText] [IpAddresses]

/-- What a destination names once it has been read. -/
structure Named (channel : String) (scheme host : List Char) (port : Option Nat) : Prop where
  known : scheme = "http".toList ∨ scheme = "https".toList
  nonempty : host ≠ []
  ascii : ∀ c ∈ host, c.toNat < 128
  chars : ∀ c ∈ host, refused c = false ∧ c ∉ ['/', '?', '#', '@', '\\', ']']
  lowered : lowerHost host = host
  bracketed : ':' ∈ host → checkBracketedHost host = true
  numbered : ∀ n, port = some n → n ≠ 0 ∧ n ≤ 65535
  onThisMachine : channel = "otlp" → scheme = "http".toList → isLocal host = true

/-- What `urlsplit` checks of the location it gives. -/
theorem netloc_of_split {url : List Char} {u : SplitResult} (h : urlsplit url = some u) :
    ('[' ∈ u.netloc ↔ ']' ∈ u.netloc) ∧
      ('[' ∈ u.netloc → checkBracketedNetloc u.netloc = true) ∧
      ∀ c ∈ u.netloc, c ∈ url ∧ isDelimiter c = false := by
  unfold urlsplit at h
  simp only at h
  split at h
  · rename_i hc
    cases h
    simp only [Bool.and_eq_true, beq_iff_eq, decide_eq_decide, Bool.or_eq_true,
      Bool.not_eq_true', decide_eq_false_iff_not] at hc
    refine ⟨hc.1.1, fun hb => hc.1.2.resolve_left (fun hn => hn hb), ?_⟩
    intro c hm
    have hrest := netloc_mem hm
    refine ⟨?_, hrest.2⟩
    have hkept := List.mem_of_mem_filter (mem_of_mem_scheme hrest.1)
    exact (List.dropWhile_suffix _).mem hkept
  · cases h

/-- A destination that is read names a host and a port, and is written from them. -/
theorem destination_named (hl : LowerCase) (ha : AddressCase) {channel : String}
    {value dest : List Char} (h : destination channel value = .ok dest) :
    (channel = "gateway" ∨ channel = "otlp") ∧
      ∃ scheme host port, Named channel scheme host port ∧
        dest = unsplit scheme (authority host port) (ingestPath channel) := by
  unfold destination at h
  split at h
  · cases h
  rename_i hchannel
  split at h
  · cases h
  simp only at h
  split at h
  · cases h
  rename_i hclean
  split at h
  · cases h
  rename_i parsed hparsed
  split at h
  swap
  · cases h
  rename_i port host hport hhost
  split at h
  · cases h
  rename_i hall
  cases h
  refine ⟨by tauto, parsed.scheme, host, port, ?_, rfl⟩
  simp only [not_or, not_and, not_not, Bool.not_eq_true] at hall
  obtain ⟨hscheme, hne, huser, -, hq, hf, -, hback, hzero, -, hlocal, hascii⟩ := hall
  have hnet := netloc_of_split hparsed
  have hat : '@' ∉ parsed.netloc := by simpa [SplitResult.hasUsername] using huser
  have hinfo := hostinfo_bracketed hat hnet.1 hnet.2.1
  have hlow : host = lowerHost parsed.hostinfo.1 := by
    unfold SplitResult.hostname at hhost
    split at hhost
    · cases hhost
    · exact (Option.some.inj hhost).symm
  have hasc : ∀ c ∈ lowerHost parsed.hostinfo.1, c.toNat < 128 := by
    rw [← hlow]
    simpa using hascii
  have hpoint := lowers_lowerHost hl hasc
  have hplain : ∀ d, ¬(97 ≤ d.toNat ∧ d.toNat ≤ 122) → d ∈ host → d ∈ parsed.hostinfo.1 :=
    fun d hd hm => plain_mem_of_lowers hpoint (hlow ▸ hm) hd
  refine ⟨?_, hne, hlow ▸ hasc, ?_, ?_, ?_, ?_,
    fun ho hs => by simpa using hlocal ho hs⟩
  · by_cases hs : parsed.scheme = "http".toList
    · exact Or.inl hs
    · exact Or.inr (hscheme hs)
  · intro c hc
    obtain ⟨d, hd, hlc⟩ := mem_of_lowers hpoint (hlow ▸ hc)
    have hnetloc := mem_hostinfo hd
    have hvalue := hnet.2.2 d hnetloc
    rcases hlc.cases with rfl | ⟨hge, hle, -⟩
    · have hclear : refused c = false := by
        have hany := (not_or.mp hclean).2
        simp only [List.any_eq_true, not_exists, not_and, Bool.not_eq_true] at hany
        exact hany c hvalue.1
      refine ⟨hclear, ?_⟩
      simp only [isDelimiter, Bool.or_eq_false_iff, beq_eq_false_iff_ne] at hvalue
      simp only [List.mem_cons, List.not_mem_nil, or_false, not_or]
      refine ⟨hvalue.2.1.1, hvalue.2.1.2, hvalue.2.2, ?_, ?_, ?_⟩
      · rintro rfl
        exact hat hnetloc
      · rintro rfl
        exact hback hvalue.1
      · rintro rfl
        exact hinfo.1 hd
    · constructor
      · simp only [refused, Bool.or_eq_false_iff, decide_eq_false_iff_not, beq_eq_false_iff_ne]
        omega
      · intro hin
        simp only [List.mem_cons, List.not_mem_nil, or_false] at hin
        rcases hin with rfl | rfl | rfl | rfl | rfl | rfl <;> exact absurd hge (by decide)
  · rw [hlow, lowerHost_idem hl hasc]
  · intro hcolon
    have hwas := hinfo.2 (hplain ':' (by decide) hcolon)
    rw [hlow]
    exact checkBracketedHost_lower hl ha hasc hwas
  · intro n hn
    refine ⟨?_, port_le hport n hn⟩
    rintro rfl
    exact hzero hn

end

def portDigits : Option Nat → List Char
  | none => []
  | some port => Nat.toDigits 10 port

theorem digit_of_port {p : Option Nat} {c : Char} (h : c ∈ portDigits p) :
    c.isDigit = true := by
  cases p with
  | none => cases h
  | some n => exact Nat.isDigit_of_mem_toDigits (by decide) (by decide) h

theorem isDigit_bounds {c : Char} (h : c.isDigit = true) : 48 ≤ c.toNat ∧ c.toNat ≤ 57 := by
  simpa [Char.isDigit, UInt32.le_iff_toNat_le] using h

/-- The characters of a location that a destination is written with. -/
theorem mem_authority {host : List Char} {port : Option Nat} {c : Char}
    (h : c ∈ authority host port) :
    c ∈ host ∨ c = ':' ∨ c.isDigit = true ∨ (':' ∈ host ∧ (c = '[' ∨ c = ']')) := by
  rw [authority, List.mem_append] at h
  rcases h with h | h
  · split at h
    · rename_i hcolon
      simp only [List.cons_append, List.mem_cons, List.mem_append, List.not_mem_nil, or_false] at h
      tauto
    · exact Or.inl h
  · cases port with
    | none => cases h
    | some n =>
      rcases List.mem_cons.mp h with h | h
      · exact Or.inr (Or.inl h)
      · exact Or.inr (Or.inr (Or.inl (digit_of_port (p := some n) h)))

theorem mem_unsplit {scheme netloc path : List Char} {c : Char}
    (hscheme : scheme = "http".toList ∨ scheme = "https".toList)
    (h : c ∈ unsplit scheme netloc path) :
    c ∈ ['h', 't', 'p', 's', ':', '/'] ∨ c ∈ netloc ∨ c ∈ path := by
  simp only [unsplit, List.mem_append] at h
  rcases h with ((h | h) | h) | h
  · left
    rcases hscheme with rfl | rfl <;> revert c <;> simp
  · left
    revert c
    simp
  · exact Or.inr (Or.inl h)
  · exact Or.inr (Or.inr h)

theorem open_iff (host : List Char) (port : Option Nat) :
    '[' ∈ authority host port ↔ '[' ∈ host ∨ ':' ∈ host := by
  constructor
  · intro hm
    rcases mem_authority hm with hm | hm | hm | hm
    · exact Or.inl hm
    · cases hm
    · exact absurd hm (by decide)
    · exact Or.inr hm.1
  · rintro (hm | hcolon)
    · unfold authority
      split <;> simp [hm]
    · simp [authority, hcolon]

def clearInPath (c : Char) : Bool :=
  !refused c && !(['?', '#', '@', '\\', '[', ']'] : List Char).contains c

theorem paths_clear : gatewayPath.all clearInPath = true ∧ logsPath.all clearInPath = true := by
  decide +kernel

theorem paths_cut : gatewayPath = '/' :: "ingest/gatewa".toList ++ ['y'] ∧
    logsPath = '/' :: "v1/log".toList ++ ['s'] := by decide +kernel

theorem ingestPath_cut (channel : String) : ∃ front last,
    ingestPath channel = '/' :: front ++ [last] ∧ isSpace last = false ∧ last ≠ '/' := by
  unfold ingestPath
  split
  · exact ⟨_, 'y', paths_cut.1, by decide, by decide⟩
  · exact ⟨_, 's', paths_cut.2, by decide, by decide⟩

theorem ingestPath_clear (channel : String) : ∀ c ∈ ingestPath channel,
    refused c = false ∧ c ∉ ['?', '#', '@', '\\', '[', ']'] := by
  have hall : (ingestPath channel).all clearInPath = true := by
    unfold ingestPath
    split
    · exact paths_clear.1
    · exact paths_clear.2
  intro c hc
  have hclear := List.all_eq_true.mp hall c hc
  simpa [clearInPath] using hclear

theorem ingestPath_ascii (channel : String) : ∀ c ∈ ingestPath channel, c.toNat < 128 := by
  have hboth : gatewayPath.all (fun c => c.toNat < 128) = true ∧
      logsPath.all (fun c => c.toNat < 128) = true := by decide +kernel
  have hall : (ingestPath channel).all (fun c => c.toNat < 128) = true := by
    unfold ingestPath
    split
    · exact hboth.1
    · exact hboth.2
  intro c hc
  simpa using List.all_eq_true.mp hall c hc

/-- The host and the port of a location that a destination is written with. -/
theorem hostinfo_authority {u : SplitResult} {host : List Char} {port : Option Nat}
    (hu : u.netloc = authority host port) (hat : '@' ∉ u.netloc)
    (hclose : ']' ∉ host) (hopen : '[' ∈ host → ':' ∈ host) :
    u.hostinfo = (host, portDigits port) := by
  have hlast : behindLast '@' u.netloc = u.netloc := behindLast_of_not_mem hat
  unfold SplitResult.hostinfo
  simp only [hlast]
  have hport : ∀ c ∈ portText port, c ≠ '[' := by
    rintro c hc rfl
    cases port with
    | none => cases hc
    | some n =>
      rcases List.mem_cons.mp hc with hc | hc
      · cases hc
      · exact absurd (digit_of_port (p := some n) hc) (by decide)
  have hbehind : behind ':' (portText port) = portDigits port := by cases port <;> rfl
  rw [hu, authority]
  by_cases hcolon : ':' ∈ host
  · simp only [hcolon, if_true]
    have hb : behind '[' ('[' :: host ++ [']'] ++ portText port) =
        host ++ ']' :: portText port := by
      have := behind_append (List.not_mem_nil (a := '[')) (host ++ ']' :: portText port)
      simpa using this
    rw [if_pos (by simp), hb, before_append hclose, behind_append hclose, hbehind]
  · have hfree : '[' ∉ host ++ portText port := by
      intro hm
      rcases List.mem_append.mp hm with hm | hm
      · exact hcolon (hopen hm)
      · exact hport _ hm rfl
    simp only [hcolon, if_false]
    rw [if_neg hfree]
    cases port with
    | none =>
      simp only [portText, portDigits, List.append_nil]
      rw [before_of_not_mem hcolon, behind_of_not_mem hcolon]
    | some n =>
      simp only [portText, portDigits]
      rw [before_append hcolon, behind_append hcolon]

theorem port_of_digits {u : SplitResult} {port : Option Nat}
    (hu : u.hostinfo.2 = portDigits port) (hle : ∀ n, port = some n → n ≤ 65535) :
    u.port = some port := by
  unfold SplitResult.port
  simp only [hu]
  cases port with
  | none => rfl
  | some n =>
    have hn := hle n rfl
    have hlen : (Nat.toDigits 10 n).length ≤ maxStrDigits :=
      le_trans ((Nat.length_toDigits_le_iff (k := 5) (by decide) (by decide)).mpr (by omega))
        (by decide)
    have hall : (Nat.toDigits 10 n).all Char.isDigit = true :=
      List.all_eq_true.mpr (fun c hc => digit_of_port (p := some n) hc)
    have hint : asciiInt (Nat.toDigits 10 n) = some n := by
      rw [asciiInt, if_pos hlen, Nat.ofDigitChars_ten_toDigits]
    simp only [portDigits, Nat.toDigits_ne_nil, if_false, hall, if_true, hint, hn]

section
variable [UnicodeText] [IpAddresses]

theorem Named.authority_clear {channel : String} {scheme host : List Char} {port : Option Nat}
    (hn : Named channel scheme host port) {c : Char} (h : c ∈ authority host port) :
    refused c = false ∧ c ∉ ['/', '?', '#', '@', '\\'] ∧ c.toNat < 128 := by
  rcases mem_authority h with h | rfl | h | ⟨-, rfl | rfl⟩
  · have hc := hn.chars c h
    refine ⟨hc.1, ?_, hn.ascii c h⟩
    intro hin
    apply hc.2
    simp only [List.mem_cons, List.not_mem_nil, or_false] at hin ⊢
    tauto
  · decide
  · have hb := isDigit_bounds h
    refine ⟨?_, ?_, by omega⟩
    · simp only [refused, Bool.or_eq_false_iff, decide_eq_false_iff_not, beq_eq_false_iff_ne]
      omega
    · intro hin
      simp only [List.mem_cons, List.not_mem_nil, or_false] at hin
      rcases hin with rfl | rfl | rfl | rfl | rfl <;> exact absurd h (by decide)
  · decide
  · decide

/-- A clean address is split at its location, when the location keeps to its rules. -/
theorem urlsplit_unsplit {scheme netloc path : List Char}
    (hscheme : scheme = "http".toList ∨ scheme = "https".toList)
    (hclear : ∀ c ∈ netloc, refused c = false ∧ c ∉ ['/', '?', '#', '@', '\\'] ∧ c.toNat < 128)
    (hpath : ∃ rest, path = '/' :: rest)
    (hpathClear : ∀ c ∈ path, refused c = false ∧ c ∉ ['?', '#', '@', '\\', '[', ']']) :
    urlsplit (unsplit scheme netloc path) =
      if (decide ('[' ∈ netloc) == decide (']' ∈ netloc)) &&
          (!decide ('[' ∈ netloc) || checkBracketedNetloc netloc) then
        some ⟨scheme, netloc, path, [], []⟩
      else none := by
  obtain ⟨rest, rfl⟩ := hpath
  have hall : ∀ c ∈ unsplit scheme netloc ('/' :: rest), 33 ≤ c.toNat := by
    intro c hc
    have hle : ∀ d, refused d = false → 33 ≤ d.toNat := by
      intro d hd
      simp only [refused, Bool.or_eq_false_iff, decide_eq_false_iff_not] at hd
      omega
    simp only [unsplit, List.mem_append] at hc
    rcases hc with ((hc | hc) | hc) | hc
    · rcases hscheme with rfl | rfl <;> revert c <;> simp
    · revert c
      simp
    · exact hle c (hclear c hc).1
    · exact hle c (hpathClear c hc).1
  have hdrop : (unsplit scheme netloc ('/' :: rest)).dropWhile isControlOrSpace =
      unsplit scheme netloc ('/' :: rest) := by
    rw [List.dropWhile_eq_self_iff]
    intro hpos
    have := hall _ (List.getElem_mem hpos)
    simp only [isControlOrSpace, decide_eq_true_eq]
    omega
  have hfilter : (unsplit scheme netloc ('/' :: rest)).filter (fun c => !isLineOrTab c) =
      unsplit scheme netloc ('/' :: rest) := by
    rw [List.filter_eq_self]
    intro c hc
    have := hall c hc
    simp only [isLineOrTab, Bool.not_eq_true', Bool.or_eq_false_iff, beq_eq_false_iff_ne]
    refine ⟨⟨?_, ?_⟩, ?_⟩ <;> rintro rfl <;> exact absurd this (by decide)
  have hcut : unsplit scheme netloc ('/' :: rest) =
      scheme ++ ':' :: ('/' :: '/' :: (netloc ++ '/' :: rest)) := by
    simp [unsplit]
  have hsplit : splitScheme (unsplit scheme netloc ('/' :: rest)) =
      (scheme, '/' :: '/' :: (netloc ++ '/' :: rest)) := by
    have hcolon : ':' ∉ scheme := by rcases hscheme with rfl | rfl <;> decide
    rw [splitScheme, hcut, before_append hcolon, behind_append hcolon]
    have hname : scheme.head?.any Char.isAlpha = true ∧ scheme.all isSchemeChar = true ∧
        scheme.map Char.toLower = scheme := by
      rcases hscheme with rfl | rfl <;> decide
    simp [hname.1, hname.2.1, hname.2.2]
  have hnetloc : splitNetloc ('/' :: '/' :: (netloc ++ '/' :: rest)) = (netloc, '/' :: rest) := by
    have hkeep : ∀ c ∈ netloc, (!isDelimiter c) = true := by
      intro c hc
      have hnot := (hclear c hc).2.1
      simp only [List.mem_cons, List.not_mem_nil, or_false, not_or] at hnot
      simp [isDelimiter, hnot]
    have hslash : (!isDelimiter '/') = false := rfl
    simp only [splitNetloc, List.span_eq_takeWhile_dropWhile]
    rw [List.takeWhile_append_of_pos hkeep, List.dropWhile_append_of_pos hkeep,
      List.takeWhile_cons_of_neg (by simp [hslash]), List.dropWhile_cons_of_neg (by simp [hslash]),
      List.append_nil]
  have hascii : checkNetloc netloc = true := by
    have : netloc.all (fun c => c.toNat < 128) = true :=
      List.all_eq_true.mpr (fun c hc => decide_eq_true (hclear c hc).2.2)
    rw [checkNetloc, if_pos this]
  have hmarks : '#' ∉ '/' :: rest ∧ '?' ∉ '/' :: rest :=
    ⟨fun hm => (hpathClear _ hm).2 (by simp), fun hm => (hpathClear _ hm).2 (by simp)⟩
  unfold urlsplit
  simp only [hdrop, hfilter, hsplit, hnetloc, hascii, Bool.and_true,
    before_of_not_mem hmarks.1, behind_of_not_mem hmarks.1, before_of_not_mem hmarks.2,
    behind_of_not_mem hmarks.2]

section
variable {channel : String} {scheme host : List Char} {port : Option Nat}

theorem Named.no_close (hn : Named channel scheme host port) : ']' ∉ host :=
  fun hm => (hn.chars _ hm).2 (by simp)

/-- A written location has a closing bracket just when its host holds a colon. -/
theorem Named.close_iff (hn : Named channel scheme host port) :
    ']' ∈ authority host port ↔ ':' ∈ host := by
  constructor
  · intro hm
    rcases mem_authority hm with hm | hm | hm | hm
    · exact absurd hm hn.no_close
    · cases hm
    · exact absurd hm (by decide)
    · exact hm.1
  · intro hcolon
    simp [authority, hcolon]

theorem Named.mark_iff (hn : Named channel scheme host port) {c : Char} (hc : c = '[' ∨ c = ']') :
    c ∈ unsplit scheme (authority host port) (ingestPath channel) ↔ c ∈ authority host port := by
  constructor
  · intro hm
    rcases mem_unsplit hn.known hm with hm | hm | hm
    · rcases hc with rfl | rfl <;> exact absurd hm (by simp)
    · exact hm
    · have hnot := (ingestPath_clear channel c hm).2
      rcases hc with rfl | rfl <;> exact absurd (by simp) hnot
  · intro hm
    simp [unsplit, hm]

theorem Named.brackets_iff (hn : Named channel scheme host port) :
    ('[' ∈ unsplit scheme (authority host port) (ingestPath channel) →
      ']' ∈ unsplit scheme (authority host port) (ingestPath channel)) ↔
        ('[' ∈ host → ':' ∈ host) := by
  rw [hn.mark_iff (Or.inl rfl), hn.mark_iff (Or.inr rfl), open_iff, hn.close_iff]
  tauto

theorem Named.no_at (hn : Named channel scheme host port) : '@' ∉ authority host port :=
  fun hm => (hn.authority_clear hm).2.1 (by simp)

/-- The brackets of a written location hold its host. -/
theorem Named.bracketed_netloc (hn : Named channel scheme host port) (hcolon : ':' ∈ host) :
    checkBracketedNetloc (authority host port) = true := by
  have hlast : behindLast '@' (authority host port) = authority host port :=
    behindLast_of_not_mem hn.no_at
  have hopen : '[' ∈ authority host port := (open_iff host port).mpr (Or.inr hcolon)
  have hcut : authority host port = '[' :: (host ++ ']' :: portText port) := by
    simp [authority, hcolon]
  unfold checkBracketedNetloc
  simp only [hlast, hopen, if_true]
  have hbefore : before '[' (authority host port) = [] := by
    rw [hcut]
    exact before_append List.not_mem_nil _
  have hbehind : behind '[' (authority host port) = host ++ ']' :: portText port := by
    rw [hcut]
    exact behind_append List.not_mem_nil _
  rw [hbefore, hbehind, before_append hn.no_close, behind_append hn.no_close,
    hn.bracketed hcolon]
  cases port <;> simp [portText]

/-- A written destination is split into its parts when its brackets are in order, and refused
when they are not. -/
theorem Named.urlsplit_written (hn : Named channel scheme host port) :
    urlsplit (unsplit scheme (authority host port) (ingestPath channel)) =
      if '[' ∈ host → ':' ∈ host then
        some ⟨scheme, authority host port, ingestPath channel, [], []⟩
      else none := by
  obtain ⟨front, last, hcut, -⟩ := ingestPath_cut channel
  rw [urlsplit_unsplit hn.known (fun c hc => hn.authority_clear hc) ⟨front ++ [last], hcut⟩
    (ingestPath_clear channel)]
  by_cases hcolon : ':' ∈ host
  · have hopen := (open_iff host port).mpr (Or.inr hcolon)
    have hclose := hn.close_iff.mpr hcolon
    simp [hopen, hclose, hn.bracketed_netloc hcolon, hcolon]
  · have hclose : ']' ∉ authority host port := fun hm => hcolon (hn.close_iff.mp hm)
    by_cases hin : '[' ∈ host
    · have hopen := (open_iff host port).mpr (Or.inl hin)
      simp [hopen, hclose, hin, hcolon]
    · have hopen : '[' ∉ authority host port := by
        rw [open_iff]
        tauto
      simp [hopen, hclose, hin]

/-- Nothing is stripped from a written destination. -/
theorem Named.stripped (hn : Named channel scheme host port) :
    stripSlashes (stripBlanks (unsplit scheme (authority host port) (ingestPath channel))) =
      unsplit scheme (authority host port) (ingestPath channel) := by
  obtain ⟨front, last, hcut, hspace, hslash⟩ := ingestPath_cut channel
  obtain ⟨first, tail, hfirst, hplain⟩ : ∃ first tail,
      scheme = first :: tail ∧ isSpace first = false := by
    rcases hn.known with rfl | rfl
    · exact ⟨'h', "ttp".toList, by decide +kernel, by decide⟩
    · exact ⟨'h', "ttps".toList, by decide +kernel, by decide⟩
  obtain ⟨middle, hmiddle⟩ : ∃ middle,
      unsplit scheme (authority host port) (ingestPath channel) = middle ++ [last] := by
    refine ⟨scheme ++ "://".toList ++ authority host port ++ '/' :: front, ?_⟩
    rw [unsplit, hcut]
    simp
  have hhead : (unsplit scheme (authority host port) (ingestPath channel)).dropWhile isSpace =
      unsplit scheme (authority host port) (ingestPath channel) := by
    rw [unsplit, hfirst]
    simp only [List.cons_append]
    rw [List.dropWhile_cons_of_neg (by simp [hplain])]
  rw [stripBlanks, Lines.trim, hhead, hmiddle, List.reverse_append, List.reverse_singleton,
    List.singleton_append, List.dropWhile_cons_of_neg (by simp [hspace]), List.reverse_cons,
    List.reverse_reverse, stripSlashes, List.rdropWhile_concat_neg]
  simpa using hslash

/-- None of the marks that a destination must be without is in a written one. -/
theorem Named.unmarked (hn : Named channel scheme host port) {c : Char}
    (hc : c = '?' ∨ c = '#' ∨ c = '\\') :
    c ∉ unsplit scheme (authority host port) (ingestPath channel) := by
  intro hm
  rcases mem_unsplit hn.known hm with hm | hm | hm
  · rcases hc with rfl | rfl | rfl <;> simp at hm
  · apply (hn.authority_clear hm).2.1
    rcases hc with rfl | rfl | rfl <;> simp
  · apply (ingestPath_clear channel c hm).2
    rcases hc with rfl | rfl | rfl <;> simp

/-- A written location does not end in a colon. -/
theorem Named.last_netloc (hn : Named channel scheme host port) :
    (authority host port).getLast? ≠ some ':' := by
  cases port with
  | some n =>
    obtain ⟨front, last, hcut⟩ :=
      (List.eq_nil_or_concat' (Nat.toDigits 10 n)).resolve_left Nat.toDigits_ne_nil
    have hdigit : last.isDigit = true :=
      digit_of_port (p := some n) (by simp [portDigits, hcut])
    intro hlast
    rw [authority, portText, hcut] at hlast
    simp only [← List.cons_append, ← List.append_assoc, List.getLast?_concat] at hlast
    obtain rfl := Option.some.inj hlast
    exact absurd hdigit (by decide)
  | none =>
    intro hlast
    rw [authority, portText, List.append_nil] at hlast
    split at hlast
    · rw [List.cons_append, ← List.cons_append, List.getLast?_concat] at hlast
      cases hlast
    · rename_i hcolon
      exact hcolon (List.mem_of_getLast? hlast)

/-- What is asked of a destination holds of a written one. -/
theorem Named.accepted (hn : Named channel scheme host port) :
    ¬((scheme ≠ "http".toList ∧ scheme ≠ "https".toList) ∨ host = [] ∨
      SplitResult.hasUsername ⟨scheme, authority host port, ingestPath channel, [], []⟩ ∨
      SplitResult.hasPassword ⟨scheme, authority host port, ingestPath channel, [], []⟩ ∨
      '?' ∈ unsplit scheme (authority host port) (ingestPath channel) ∨
      '#' ∈ unsplit scheme (authority host port) (ingestPath channel) ∨
      (authority host port).getLast? = some ':' ∨
      '\\' ∈ unsplit scheme (authority host port) (ingestPath channel) ∨ port = some 0 ∨
      (ingestPath channel ≠ [] ∧ ingestPath channel ≠ ['/'] ∧
        ingestPath channel ≠ ingestPath channel) ∨
      (channel = "otlp" ∧ scheme = "http".toList ∧ ¬isLocal host) ∨
      ¬host.all (fun c => c.toNat < 128)) := by
  have hat : (authority host port).contains '@' = false := by
    simpa using hn.no_at
  have hzero : port ≠ some 0 := fun h => (hn.numbered 0 h).1 rfl
  have hascii : host.all (fun c => c.toNat < 128) = true :=
    List.all_eq_true.mpr (fun c hc => decide_eq_true (hn.ascii c hc))
  simp only [SplitResult.hasUsername, SplitResult.hasPassword, hat, Bool.false_and, hn.nonempty,
    hn.unmarked (Or.inl rfl), hn.unmarked (Or.inr (Or.inl rfl)),
    hn.unmarked (Or.inr (Or.inr rfl)), hn.last_netloc, hzero, hascii, ne_eq, not_true_eq_false,
    and_false, or_false, false_or, Bool.false_eq_true]
  rintro (⟨hhttp, hhttps⟩ | ⟨hotlp, hhttp, hremote⟩)
  · exact hn.known.elim hhttp hhttps
  · exact hremote (hn.onThisMachine hotlp hhttp)

/-- What is written for a destination is read as itself when it is not too long and the brackets
in it are in order, and then only. -/
theorem Named.destination_iff (hn : Named channel scheme host port)
    (hchannel : channel = "gateway" ∨ channel = "otlp") :
    destination channel (unsplit scheme (authority host port) (ingestPath channel)) =
        .ok (unsplit scheme (authority host port) (ingestPath channel)) ↔
      (unsplit scheme (authority host port) (ingestPath channel)).length ≤ maxDestination ∧
        ('[' ∈ host → ':' ∈ host) := by
  unfold destination
  rw [if_neg (by tauto)]
  by_cases hlen : maxDestination <
      (unsplit scheme (authority host port) (ingestPath channel)).length
  · rw [if_pos hlen]
    constructor
    · exact nofun
    · exact fun h => absurd hlen (not_lt.mpr h.1)
  rw [if_neg hlen]
  simp only [hn.stripped, hn.urlsplit_written]
  have hclean : ¬(unsplit scheme (authority host port) (ingestPath channel) = [] ∨
      (unsplit scheme (authority host port) (ingestPath channel)).any refused = true) := by
    rw [not_or]
    refine ⟨by simp [unsplit], ?_⟩
    simp only [List.any_eq_true, not_exists, not_and, Bool.not_eq_true]
    intro c hc
    rcases mem_unsplit hn.known hc with hc | hc | hc
    · simp only [List.mem_cons, List.not_mem_nil, or_false] at hc
      rcases hc with rfl | rfl | rfl | rfl | rfl | rfl <;> rfl
    · exact (hn.authority_clear hc).1
    · exact (ingestPath_clear channel c hc).1
  rw [if_neg hclean]
  by_cases hbr : '[' ∈ host → ':' ∈ host
  swap
  · rw [if_neg hbr]
    constructor
    · exact nofun
    · exact fun h => absurd h.2 hbr
  rw [if_pos hbr]
  have hinfo := hostinfo_authority (u := ⟨scheme, authority host port, ingestPath channel, [], []⟩)
    rfl hn.no_at hn.no_close hbr
  have hport := port_of_digits (by rw [hinfo]) (fun n h => (hn.numbered n h).2)
  have hname : SplitResult.hostname
      ⟨scheme, authority host port, ingestPath channel, [], []⟩ = some host := by
    rw [SplitResult.hostname, hinfo]
    simp only [hn.nonempty, if_false, hn.lowered]
  simp only [hport, hname]
  rw [if_neg hn.accepted]
  exact ⟨fun _ => ⟨not_lt.mp hlen, hbr⟩, fun _ => rfl⟩

end

end

end Sediment.Proofs.DeliveryDestination
