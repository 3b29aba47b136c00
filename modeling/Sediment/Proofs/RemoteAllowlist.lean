import Sediment.Cli.RemoteAllowlist
import Mathlib.Tactic

namespace Sediment.Proofs.RemoteAllowlist
open Sediment.Core.TextMethods Sediment.Cli.RemoteAllowlist

/-- A host, which may have a port, with a path below it, as an allowlist entry or a repository
names them. No host is called like a scheme. -/
structure Remote where
  host : List Char
  segments : List (List Char)
  host_ne_nil : host ≠ []
  host_plain : '/' ∉ host ∧ '@' ∉ host
  no_scheme : ∀ scheme ∈ schemes, scheme ≠ host ++ ['/', '/']
  segments_plain : ∀ segment ∈ segments, segment ≠ [] ∧ '/' ∉ segment

/-- Every segment behind a slash. -/
def Remote.path (r : Remote) : List Char := r.segments.flatMap ('/' :: ·)

/-- The one text that stands for a remote. -/
def Remote.text (r : Remote) : List Char := r.host ++ r.path ++ ['/']

structure User where
  name : List Char
  plain : '/' ∉ name ∧ '@' ∉ name ∧ ':' ∉ name

inductive Form where
  | https | http | git
  | ssh (user : Option User)
  | scp (user : Option User) (rooted : Bool)
  | bare

def credentials (user : Option User) : List Char := user.elim [] (·.name ++ ['@'])

/-- One way to write a remote. Behind the colon of an scp-like spelling, the path may start with a
slash. An allowlist entry may also be bare. -/
structure Spelling where
  form : Form
  git : Bool
  slashes : Nat

/-- What stands behind the path. -/
def Spelling.ending (s : Spelling) : List Char :=
  (if s.git then gitSuffix else []) ++ List.replicate s.slashes '/'

def Spelling.text (s : Spelling) (r : Remote) : List Char :=
  match s.form with
  | .https => "https://".toList ++ (r.host ++ r.path ++ s.ending)
  | .http => "http://".toList ++ (r.host ++ r.path ++ s.ending)
  | .git => "git://".toList ++ (r.host ++ r.path ++ s.ending)
  | .ssh user => "ssh://".toList ++ (credentials user ++ (r.host ++ r.path ++ s.ending))
  | .scp user false => credentials user ++ (r.host ++ ':' :: (r.path.tail ++ s.ending))
  | .scp user true => credentials user ++ (r.host ++ ':' :: (r.path ++ s.ending))
  | .bare => r.host ++ r.path ++ s.ending

/-- A host alone has no '.git' and no scp-like spelling, and neither has a host with a port. -/
def Spelling.Fits (s : Spelling) (r : Remote) : Prop :=
  (r.segments = [] → s.git = false) ∧
  (r.segments = [] ∨ ':' ∈ r.host → ∀ user rooted, s.form ≠ .scp user rooted)

/-- The spellings that the matching reads as it should: '.git' comes without slashes behind it, a
name that ends in '.git' comes with something behind it, and an scp-like spelling has no slash
behind its colon, and a user, or an '@' before its second slash. -/
def Spelling.Plain (s : Spelling) (r : Remote) : Prop :=
  (if s.git then s.slashes = 0
    else s.slashes ≠ 0 ∨ ¬ gitSuffix <:+ r.path) ∧
  (s.form = .scp none false → '@' ∈ before '/' r.path.tail) ∧
  ∀ user, s.form ≠ .scp user true

section
variable {r : Remote}

theorem path_eq_nil : r.path = [] ↔ r.segments = [] := by
  unfold Remote.path
  cases r.segments with
  | nil => simp
  | cons s ss => simp

/-- A path that is there starts behind a slash. -/
theorem path_cons (h : r.segments ≠ []) : r.path = '/' :: r.path.tail := by
  unfold Remote.path
  cases hs : r.segments with
  | nil => exact absurd hs h
  | cons s ss => simp

/-- A path that is there does not end in a slash. -/
theorem path_getLast (h : r.segments ≠ []) : ∃ front c, r.path = front ++ [c] ∧ c ≠ '/' := by
  obtain ⟨front, last, hs⟩ : ∃ front last, r.segments = front ++ [last] :=
    ⟨_, _, (List.dropLast_concat_getLast h).symm⟩
  obtain ⟨hne, hplain⟩ := r.segments_plain last (by rw [hs]; simp)
  obtain ⟨init, c, rfl⟩ : ∃ init c, last = init ++ [c] :=
    ⟨_, _, (List.dropLast_concat_getLast hne).symm⟩
  refine ⟨front.flatMap ('/' :: ·) ++ '/' :: init, c, by simp [Remote.path, hs], ?_⟩
  rintro rfl
  exact hplain (by simp)

/-- The first letter behind the first slash is not a slash. -/
theorem path_tail_head (h : r.segments ≠ []) : r.path.tail.head? ≠ some '/' := by
  unfold Remote.path
  cases hs : r.segments with
  | nil => exact absurd hs h
  | cons s ss =>
    obtain ⟨hne, hplain⟩ := r.segments_plain s (by rw [hs]; simp)
    cases s with
    | nil => exact absurd rfl hne
    | cons c s =>
      intro hhead
      have hc : c = '/' := Option.some.inj hhead
      exact hplain (by rw [hc]; simp)

/-- The last steps of the normalization. -/
def finish (text : List Char) : List Char :=
  (removeSuffix gitSuffix text).rdropWhile (· = '/') ++ ['/']

theorem slash_not_mem_gitSuffix : '/' ∉ gitSuffix := by decide

theorem rdropWhile_slashes (text : List Char) (n : Nat) :
    (text ++ List.replicate n '/').rdropWhile (· = '/') = text.rdropWhile (· = '/') := by
  induction n with
  | zero => simp
  | succ n ih =>
    rw [List.replicate_succ', ← List.append_assoc,
      List.rdropWhile_concat_pos (fun c => decide (c = '/')) _ '/' (by decide), ih]

theorem rdropWhile_concat {front : List Char} {c : Char} (h : c ≠ '/') :
    (front ++ [c]).rdropWhile (· = '/') = front ++ [c] :=
  List.rdropWhile_concat_neg (fun c => decide (c = '/')) _ c (by simpa using h)

theorem rdropWhile_plain {text : List Char} (h : '/' ∉ text) :
    text.rdropWhile (· = '/') = text := by
  cases text using List.reverseRecOn with
  | nil => rfl
  | append_singleton front c =>
    apply rdropWhile_concat
    rintro rfl
    exact h (by simp)

/-- Behind slashes no '.git' is seen. -/
theorem finish_slashes (text : List Char) {n : Nat} (hn : n ≠ 0) :
    finish (text ++ List.replicate n '/') = text.rdropWhile (· = '/') ++ ['/'] := by
  have hkept : removeSuffix gitSuffix (text ++ List.replicate n '/') =
      text ++ List.replicate n '/' := by
    apply if_neg
    intro hsuffix
    obtain ⟨m, rfl⟩ := Nat.exists_eq_succ_of_ne_zero hn
    rw [List.replicate_succ', ← List.append_assoc] at hsuffix
    have hlast := hsuffix.getLast (by decide : gitSuffix ≠ [])
    rw [List.getLast_concat] at hlast
    revert hlast
    decide
  rw [finish, hkept, rdropWhile_slashes]

theorem finish_git {front : List Char} {c : Char} (h : c ≠ '/') :
    finish (front ++ [c] ++ gitSuffix) = front ++ [c] ++ ['/'] := by
  rw [finish, removeSuffix_append, rdropWhile_concat h]

theorem finish_plain {front : List Char} {c : Char} (h : c ≠ '/')
    (hgit : ¬ gitSuffix <:+ front ++ [c]) : finish (front ++ [c]) = front ++ [c] ++ ['/'] := by
  rw [finish, removeSuffix, if_neg hgit, rdropWhile_concat h]

/-- A '.git' that is the end of the name comes off, too. -/
theorem length_finish_git {text : List Char} (h : gitSuffix <:+ text) :
    (finish text).length < text.length := by
  have hlen := (List.rdropWhile_prefix (fun c => decide (c = '/'))
    (text.take (text.length - gitSuffix.length))).length_le
  have hpos := h.length_le
  have hfour : gitSuffix.length = 4 := by decide
  rw [finish, removeSuffix, if_pos h, List.length_append, List.length_singleton]
  rw [List.length_take] at hlen
  omega

variable {s : Spelling}

/-- What stands behind the host is nothing, or starts with a slash. -/
theorem tail_slash (h : s.Fits r) :
    r.path ++ s.ending = [] ∨ r.path ++ s.ending = '/' :: (r.path ++ s.ending).tail := by
  by_cases hr : r.segments = []
  · rw [path_eq_nil.mpr hr, List.nil_append, Spelling.ending, h.1 hr]
    cases s.slashes with
    | zero => exact Or.inl rfl
    | succ n => exact Or.inr rfl
  · right
    rw [path_cons hr]
    rfl

/-- The host and what stands behind it, before the end is looked at. -/
def assembled (r : Remote) (s : Spelling) : List Char :=
  r.host ++ (if r.path ++ s.ending = [] then ['/'] else r.path ++ s.ending)

theorem suffix_path {suffix : List Char} (hs : '/' ∉ suffix) (hr : r.segments ≠ []) :
    suffix <:+ r.host ++ r.path ↔ suffix <:+ r.path := by
  constructor
  · intro h
    obtain h | h := List.suffix_or_suffix_of_suffix h (List.suffix_append r.host r.path)
    · exact h
    · exact absurd (h.subset (by rw [path_cons hr]; exact List.mem_cons_self)) hs
  · exact fun h => h.trans (List.suffix_append r.host r.path)

/-- A spelling ends as it should exactly when its '.git' can be told from its name. -/
theorem finish_assembled (h : s.Fits r) : finish (assembled r s) = r.text ↔
    if s.git then s.slashes = 0 else s.slashes ≠ 0 ∨ ¬ gitSuffix <:+ r.path := by
  by_cases hr : r.segments = []
  · have hpath := path_eq_nil.mpr hr
    have hgit := h.1 hr
    have hslashes : assembled r s =
        r.host ++ List.replicate (if s.slashes = 0 then 1 else s.slashes) '/' := by
      rw [assembled, hpath, List.nil_append, Spelling.ending, hgit]
      cases s.slashes with
      | zero => rfl
      | succ n => rfl
    have hne : (if s.slashes = 0 then 1 else s.slashes) ≠ 0 := by
      split
      · decide
      · assumption
    rw [hslashes, finish_slashes _ hne, rdropWhile_plain r.host_plain.1, hgit, Remote.text, hpath]
    simp [gitSuffix]
  · obtain ⟨front, c, hpath, hc⟩ := path_getLast hr
    have hne : r.path ++ s.ending ≠ [] := by
      rw [hpath]
      simp
    have htext : r.text = r.host ++ front ++ [c] ++ ['/'] := by
      simp [Remote.text, hpath]
    have hall : assembled r s = r.host ++ front ++ [c] ++ s.ending := by
      rw [assembled, if_neg hne, hpath]
      simp
    rw [hall, htext, Spelling.ending]
    by_cases hgit : s.git = true
    · rw [if_pos hgit, if_pos hgit]
      by_cases hn : s.slashes = 0
      · rw [hn, List.replicate_zero, List.append_nil, finish_git hc]
        simp
      · rw [← List.append_assoc, finish_slashes _ hn]
        have hkept : (r.host ++ front ++ [c] ++ gitSuffix).rdropWhile (· = '/') =
            r.host ++ front ++ [c] ++ gitSuffix := by
          have hlast : gitSuffix = gitSuffix.dropLast ++ ['t'] := by decide
          rw [hlast, ← List.append_assoc]
          exact rdropWhile_concat (by decide)
        rw [hkept]
        simp [hn, gitSuffix]
    · rw [if_neg hgit, if_neg hgit, List.nil_append]
      by_cases hn : s.slashes = 0
      · have hsuffix := suffix_path slash_not_mem_gitSuffix hr
        rw [hpath, ← List.append_assoc] at hsuffix
        rw [hn, List.replicate_zero, List.append_nil, hpath]
        by_cases hend : gitSuffix <:+ front ++ [c]
        · have hlen := length_finish_git (hsuffix.mpr hend)
          constructor
          · intro heq
            rw [heq] at hlen
            simp at hlen
          · rintro (habs | habs)
            · exact absurd rfl habs
            · exact absurd hend habs
        · rw [finish_plain hc (fun h => hend (hsuffix.mp h))]
          simp [hend]
      · rw [finish_slashes _ hn, rdropWhile_concat hc]
        simp [hn]

theorem behindLast_credentials (user : Option User) {text : List Char} (h : '@' ∉ text) :
    behindLast '@' (credentials user ++ text) = text := by
  cases user with
  | none => exact behindLast_of_not_mem h
  | some user =>
    have hsplit : credentials (some user) ++ text = user.name ++ '@' :: text := by
      simp [credentials]
    rw [hsplit, behindLast_append _ h]

theorem slash_not_mem_credentials (user : Option User) : '/' ∉ credentials user := by
  cases user with
  | none => exact List.not_mem_nil
  | some user => simp [credentials, user.plain.1]

/-- Once the scheme is gone, the host stands alone before what is behind it. -/
theorem host_found (h : s.Fits r) (user : Option User) :
    let url := credentials user ++ (r.host ++ r.path ++ s.ending)
    behindLast '@' (before '/' url) ++ '/' :: behind '/' url = assembled r s := by
  have hslash : '/' ∉ credentials user ++ r.host := by
    rw [List.mem_append, not_or]
    exact ⟨slash_not_mem_credentials user, r.host_plain.1⟩
  intro url
  have hurl : url = credentials user ++ r.host ++ (r.path ++ s.ending) := by
    simp [url]
  obtain hnil | hcons := tail_slash h
  · rw [hurl, hnil, List.append_nil, before_of_not_mem hslash, behind_of_not_mem hslash,
      behindLast_credentials user r.host_plain.2, assembled, if_pos hnil]
  · have hne : r.path ++ s.ending ≠ [] := by
      rw [hcons]
      exact List.cons_ne_nil _ _
    rw [hurl, assembled, if_neg hne, hcons, before_append hslash, behind_append hslash,
      behindLast_credentials user r.host_plain.2]

/-- A known scheme is a name with a colon, and two slashes behind it. -/
theorem scheme_shape {scheme : List Char} (h : scheme ∈ schemes) :
    ∃ name, '/' ∉ name ∧ ':' ∉ name ∧ scheme = name ++ [':', '/', '/'] := by
  simp only [schemes, List.mem_cons, List.not_mem_nil, or_false] at h
  obtain rfl | rfl | rfl | rfl := h
  · exact ⟨"ssh".toList, by simp, by simp, rfl⟩
  · exact ⟨"git".toList, by simp, by simp, rfl⟩
  · exact ⟨"http".toList, by simp, by simp, rfl⟩
  · exact ⟨"https".toList, by simp, by simp, rfl⟩

/-- What has a known scheme has a slash behind its first colon. -/
theorem scheme_behind {scheme url : List Char} (hs : scheme ∈ schemes) (h : scheme <+: url) :
    (behind ':' url).head? = some '/' := by
  obtain ⟨name, -, hcolon, rfl⟩ := scheme_shape hs
  obtain ⟨rest, rfl⟩ := h
  rw [List.append_assoc, List.cons_append, behind_append hcolon]
  rfl

theorem stripScheme_none {url : List Char} (h : ∀ scheme ∈ schemes, ¬ scheme <+: url) :
    stripScheme url =
      if '@' ∈ before '/' url ∧ ':' ∈ url then replaceFirst ':' '/' url else url := by
  have hnone : schemes.find? (fun scheme => decide (scheme <+: url)) = none := by
    rw [List.find?_eq_none]
    intro scheme hs hpre
    exact h scheme hs (of_decide_eq_true hpre)
  rw [stripScheme, hnone]

theorem stripScheme_ssh (rest : List Char) : stripScheme ("ssh://".toList ++ rest) = rest := rfl

theorem stripScheme_git (rest : List Char) : stripScheme ("git://".toList ++ rest) = rest := rfl

theorem stripScheme_http (rest : List Char) : stripScheme ("http://".toList ++ rest) = rest := rfl

theorem stripScheme_https (rest : List Char) :
    stripScheme ("https://".toList ++ rest) = rest := rfl

theorem before_front {c : Char} {front : List Char} (h : c ∉ front) (back : List Char) :
    before c (front ++ back) = front ++ before c back := by
  rw [before, List.takeWhile_append_of_pos]
  · rfl
  · intro d hd
    rw [decide_eq_true_iff]
    rintro rfl
    exact h hd

/-- Two texts that stop at a slash are one below the other only where the slash is the same. -/
theorem slash_prefix_iff {x y a b : List Char} (hx : '/' ∉ x) (hy : '/' ∉ y) :
    x ++ '/' :: a <+: y ++ '/' :: b ↔ x = y ∧ '/' :: a <+: '/' :: b := by
  constructor
  · intro h
    obtain ⟨rest, heq⟩ := h
    rw [List.append_assoc, List.cons_append] at heq
    have hbefore := congrArg (before '/') heq
    rw [before_append hx, before_append hy] at hbefore
    subst hbefore
    exact ⟨rfl, rest, List.append_cancel_left heq⟩
  · intro h
    rw [h.1, List.prefix_append_right_inj]
    exact h.2

/-- A bare entry starts with its host, and that is no scheme. -/
theorem bare_scheme (h : s.Fits r) {scheme : List Char} (hs : scheme ∈ schemes) :
    ¬ scheme <+: r.host ++ (r.path ++ s.ending) := by
  obtain ⟨name, hslash, -, hname⟩ := scheme_shape hs
  have hplain : '/' ∉ name ++ [':'] := by simp [hslash]
  have hsplit : scheme = (name ++ [':']) ++ '/' :: ['/'] := by simp [hname]
  intro hpre
  rw [hsplit] at hpre
  obtain hnil | hcons := tail_slash h
  · rw [hnil, List.append_nil] at hpre
    exact r.host_plain.1 (hpre.subset (by simp))
  · rw [hcons, slash_prefix_iff hplain r.host_plain.1] at hpre
    apply r.no_scheme scheme hs
    rw [hsplit, hpre.1]

theorem stripScheme_bare (h : s.Fits r) :
    stripScheme (r.host ++ r.path ++ s.ending) = r.host ++ r.path ++ s.ending := by
  have hfirst : before '/' (r.host ++ r.path ++ s.ending) = r.host := by
    rw [List.append_assoc]
    obtain hnil | hcons := tail_slash h
    · rw [hnil, List.append_nil, before_of_not_mem r.host_plain.1]
    · rw [hcons, before_append r.host_plain.1]
  have hscheme : ∀ scheme ∈ schemes, ¬ scheme <+: r.host ++ r.path ++ s.ending := by
    intro scheme hs
    rw [List.append_assoc]
    exact bare_scheme h hs
  rw [stripScheme_none hscheme, hfirst, if_neg]
  intro hat
  exact r.host_plain.2 hat.1

/-- What stands behind the colon of an scp-like spelling does not start with a slash. -/
theorem scp_behind (hr : r.segments ≠ []) (rest : List Char) :
    (r.path.tail ++ rest).head? ≠ some '/' := by
  have hhead := path_tail_head hr
  cases htail : r.path.tail with
  | nil =>
    obtain ⟨front, c, hpath, hc⟩ := path_getLast hr
    have hcons := path_cons hr
    rw [htail] at hcons
    have hlast : c = '/' := by
      have hone := hpath.symm.trans hcons
      have hget := congrArg List.getLast? hone
      simpa using hget
    exact absurd hlast hc
  | cons c tail =>
    rw [htail] at hhead
    exact hhead

theorem colon_not_mem_host (hport : ':' ∉ r.host) (user : Option User) :
    ':' ∉ credentials user ++ r.host := by
  rw [List.mem_append, not_or]
  refine ⟨?_, hport⟩
  cases user with
  | none => exact List.not_mem_nil
  | some user => simp [credentials, user.plain.2.2]

/-- The first colon of an scp-like spelling becomes the slash behind the host. -/
theorem scp_replaced (hr : r.segments ≠ []) (hport : ':' ∉ r.host) (user : Option User) :
    replaceFirst ':' '/' (credentials user ++ (r.host ++ ':' :: (r.path.tail ++ s.ending))) =
      credentials user ++ (r.host ++ r.path ++ s.ending) := by
  have hcolon := colon_not_mem_host hport user
  have hsplit : credentials user ++ (r.host ++ ':' :: (r.path.tail ++ s.ending)) =
      credentials user ++ r.host ++ ':' :: (r.path.tail ++ s.ending) := by
    simp
  have hjoin : '/' :: (r.path.tail ++ s.ending) = r.path ++ s.ending := by
    rw [← List.cons_append, ← path_cons hr]
  rw [hsplit, replaceFirst, before_append hcolon, behind_append hcolon, hjoin]
  simp

theorem at_not_mem_ending (s : Spelling) : '@' ∉ s.ending := by
  rw [Spelling.ending, List.mem_append, not_or]
  constructor
  · split
    · decide
    · exact List.not_mem_nil
  · intro hin
    exact absurd (List.eq_of_mem_replicate hin) (by decide)

/-- What ends a spelling brings no '@' before its first slash. -/
theorem at_mem_before (text : List Char) (s : Spelling) :
    '@' ∈ before '/' (text ++ s.ending) ↔ '@' ∈ before '/' text := by
  by_cases hslash : '/' ∈ text
  · obtain ⟨front, back, rfl, hfront⟩ := List.eq_append_cons_of_mem hslash
    rw [List.append_assoc, List.cons_append, before_append hfront, before_append hfront]
  · rw [before_front hslash, before_of_not_mem hslash, List.mem_append, or_iff_left]
    intro hin
    exact at_not_mem_ending s ((List.takeWhile_prefix _).subset hin)

theorem stripScheme_scp (hr : r.segments ≠ []) (hport : ':' ∉ r.host) (user : Option User) :
    stripScheme (credentials user ++ (r.host ++ ':' :: (r.path.tail ++ s.ending))) =
      if user = none ∧ '@' ∉ before '/' r.path.tail then
        r.host ++ ':' :: (r.path.tail ++ s.ending)
      else credentials user ++ (r.host ++ r.path ++ s.ending) := by
  have hcolon := colon_not_mem_host hport user
  have hslash : '/' ∉ credentials user ++ r.host ++ [':'] := by
    simp [slash_not_mem_credentials user, r.host_plain.1]
  have hsplit : credentials user ++ (r.host ++ ':' :: (r.path.tail ++ s.ending)) =
      credentials user ++ r.host ++ ':' :: (r.path.tail ++ s.ending) := by
    simp
  have hbehind : behind ':' (credentials user ++ (r.host ++ ':' :: (r.path.tail ++ s.ending))) =
      r.path.tail ++ s.ending := by
    rw [hsplit, behind_append hcolon]
  have hbefore : before '/' (credentials user ++ (r.host ++ ':' :: (r.path.tail ++ s.ending))) =
      credentials user ++ r.host ++ [':'] ++ before '/' (r.path.tail ++ s.ending) := by
    rw [← before_front hslash]
    simp
  have hat : '@' ∈ before '/' (credentials user ++
      (r.host ++ ':' :: (r.path.tail ++ s.ending))) ↔
      ¬(user = none ∧ '@' ∉ before '/' r.path.tail) := by
    rw [hbefore, List.mem_append, at_mem_before]
    cases user with
    | none => simp [credentials, r.host_plain.2]
    | some user => simp [credentials]
  have hmem : ':' ∈ credentials user ++ (r.host ++ ':' :: (r.path.tail ++ s.ending)) := by
    simp
  have hscheme : ∀ scheme ∈ schemes,
      ¬ scheme <+: credentials user ++ (r.host ++ ':' :: (r.path.tail ++ s.ending)) := by
    intro scheme hs hpre
    have hhead := scheme_behind hs hpre
    rw [hbehind] at hhead
    exact scp_behind hr _ hhead
  rw [stripScheme_none hscheme, scp_replaced hr hport]
  by_cases huser : user = none ∧ '@' ∉ before '/' r.path.tail
  · rw [if_pos huser, if_neg (fun h => hat.mp h.1 huser), huser.1]
    rfl
  · rw [if_neg huser, if_pos ⟨hat.mpr huser, hmem⟩]

/-- The normalization of a lowered text. -/
def normalize (text : List Char) : List Char :=
  let url := stripScheme text
  finish (behindLast '@' (before '/' url) ++ '/' :: behind '/' url)

theorem normalizeRemote_eq [Lower] (url : List Char) :
    normalizeRemote url = normalize (Lower.lower (stripBlanks url)) := rfl

/-- What is left of a text is its beginning, and a slash. -/
theorem finish_eq (text : List Char) : ∃ front, front <+: text ∧ finish text = front ++ ['/'] := by
  refine ⟨_, (List.rdropWhile_prefix _ _).trans ?_, rfl⟩
  unfold removeSuffix
  split
  · exact List.take_prefix _ _
  · exact List.prefix_refl _

/-- A second slash behind the host is in the way. -/
theorem finish_rooted (hr : r.segments ≠ []) (back : List Char) :
    finish (r.host ++ '/' :: '/' :: back) ≠ r.text := by
  obtain ⟨c, tail, htail⟩ : ∃ c tail, r.path.tail = c :: tail := by
    refine List.exists_cons_of_ne_nil fun hnil => ?_
    have hhead := scp_behind hr ['/']
    rw [hnil] at hhead
    exact hhead rfl
  have hc : c ≠ '/' := by
    have hhead := path_tail_head hr
    rw [htail] at hhead
    exact fun heq => hhead (congrArg some heq)
  have htext : r.text = r.host ++ ['/', c] ++ (tail ++ ['/']) := by
    rw [Remote.text, path_cons hr, htail]
    simp
  intro heq
  obtain ⟨front, hfront, hfinish⟩ := finish_eq (r.host ++ '/' :: '/' :: back)
  rw [hfinish, htext, ← List.append_assoc] at heq
  have hkept : r.host ++ ['/', c] <+: front :=
    ⟨tail, (List.append_inj_left' heq rfl).symm⟩
  have hpre := hkept.trans hfront
  rw [List.prefix_append_right_inj, List.cons_prefix_cons, List.cons_prefix_cons] at hpre
  exact hc hpre.2.1

/-- The slash behind the host stays. -/
theorem finish_front {front : List Char} (h : '/' ∉ front) (back : List Char) :
    front <+: finish (front ++ '/' :: back) := by
  have hremoved : ∃ rest, removeSuffix gitSuffix (front ++ '/' :: back) = front ++ '/' :: rest := by
    unfold removeSuffix
    split
    · rename_i hsuffix
      obtain hin | hin := List.suffix_or_suffix_of_suffix hsuffix
        (List.suffix_append front ('/' :: back))
      · obtain ⟨rest, hrest⟩ := hin
        cases rest with
        | nil =>
          rw [List.nil_append] at hrest
          exact absurd (by rw [hrest]; exact List.mem_cons_self) slash_not_mem_gitSuffix
        | cons c rest =>
          have hc : c = '/' := (List.cons.inj hrest).1
          refine ⟨rest, ?_⟩
          rw [← hrest, hc, ← List.append_assoc, List.length_append, Nat.add_sub_cancel,
            List.take_left]
      · exact absurd (hin.subset List.mem_cons_self) slash_not_mem_gitSuffix
    · exact ⟨back, rfl⟩
  obtain ⟨rest, hrest⟩ := hremoved
  rw [finish, hrest]
  apply List.IsPrefix.trans _ (List.prefix_append _ ['/'])
  clear hrest
  induction rest using List.reverseRecOn with
  | nil =>
    have hone := rdropWhile_slashes front 1
    rw [List.replicate_one] at hone
    rw [hone, rdropWhile_plain h]
  | append_singleton rest c ih =>
    rw [← List.cons_append, ← List.append_assoc]
    by_cases hc : c = '/'
    · rw [List.rdropWhile_concat_pos (fun c => decide (c = '/')) _ c (decide_eq_true hc)]
      exact ih
    · rw [rdropWhile_concat hc, List.append_assoc]
      exact List.prefix_append _ _

/-- A colon that stays behind the host is in the way. -/
theorem normalize_colon {tail : List Char}
    (hscheme : stripScheme (r.host ++ ':' :: tail) = r.host ++ ':' :: tail)
    (hat : '@' ∉ before '/' tail) : normalize (r.host ++ ':' :: tail) ≠ r.text := by
  have hslash : '/' ∉ r.host ++ [':'] := by simp [r.host_plain.1]
  have hbefore : before '/' (r.host ++ ':' :: tail) = r.host ++ ':' :: before '/' tail := by
    have hfront := before_front hslash tail
    simpa using hfront
  have hnone : '@' ∉ r.host ++ ':' :: before '/' tail := by
    simp [r.host_plain.2, hat]
  have hplain : '/' ∉ r.host ++ ':' :: before '/' tail := by
    have hstop : '/' ∉ before '/' tail := by
      intro hin
      have hne := List.mem_takeWhile_imp hin
      simp at hne
    simp [r.host_plain.1, hstop]
  intro heq
  unfold normalize at heq
  rw [hscheme] at heq
  dsimp only at heq
  rw [hbefore, behindLast_of_not_mem hnone] at heq
  have hpre := finish_front hplain (behind '/' (r.host ++ ':' :: tail))
  rw [heq, Remote.text, List.append_assoc, List.prefix_append_right_inj] at hpre
  cases hpath : r.path ++ ['/'] with
  | nil => simp at hpath
  | cons c rest =>
    rw [hpath, List.cons_prefix_cons] at hpre
    have hc : c = '/' := by
      by_cases hr : r.segments = []
      · rw [path_eq_nil.mpr hr] at hpath
        exact (List.cons.inj hpath).1.symm
      · rw [path_cons hr] at hpath
        exact (List.cons.inj hpath).1.symm
    rw [hc] at hpre
    exact absurd hpre.1 (by decide)

/-- A path behind a colon that starts with a slash is not read as the same path. -/
theorem normalize_rooted (hr : r.segments ≠ []) (hport : ':' ∉ r.host) (user : Option User) :
    normalize (credentials user ++ (r.host ++ ':' :: (r.path ++ s.ending))) ≠ r.text := by
  have hcolon := colon_not_mem_host hport user
  have hslash : '/' ∉ credentials user ++ r.host := by
    rw [List.mem_append, not_or]
    exact ⟨slash_not_mem_credentials user, r.host_plain.1⟩
  have hstop : '/' ∉ credentials user ++ r.host ++ [':'] := by
    rw [List.mem_append, not_or]
    exact ⟨hslash, by decide⟩
  have hjoin : r.path ++ s.ending = '/' :: (r.path.tail ++ s.ending) := by
    rw [← List.cons_append, ← path_cons hr]
  have hsplit : credentials user ++ (r.host ++ ':' :: (r.path ++ s.ending)) =
      credentials user ++ r.host ++ ':' :: '/' :: (r.path.tail ++ s.ending) := by
    rw [hjoin]
    simp
  have hfirst : before '/' (credentials user ++ (r.host ++ ':' :: (r.path ++ s.ending))) =
      credentials user ++ r.host ++ [':'] := by
    have hfront := before_append hstop (r.path.tail ++ s.ending)
    rw [hsplit]
    simpa using hfront
  have hscheme : ∀ scheme ∈ schemes,
      ¬ scheme <+: credentials user ++ (r.host ++ ':' :: (r.path ++ s.ending)) := by
    intro scheme hs hpre
    obtain ⟨name, hname, hplain, rfl⟩ := scheme_shape hs
    -- A scheme would put a second slash behind the colon, where a segment starts.
    obtain ⟨rest, hrest⟩ := hpre
    have hbehind := congrArg (behind ':') hrest
    rw [hsplit, behind_append hcolon, List.append_assoc, List.cons_append,
      behind_append hplain] at hbehind
    have hhead := congrArg List.head? (List.cons.inj hbehind).2
    exact scp_behind hr _ hhead.symm
  cases user with
  | none =>
    have hat : '@' ∉ before '/' (credentials none ++ (r.host ++ ':' :: (r.path ++ s.ending))) := by
      rw [hfirst]
      simp [credentials, r.host_plain.2]
    have hkept : stripScheme (credentials none ++ (r.host ++ ':' :: (r.path ++ s.ending))) =
        credentials none ++ (r.host ++ ':' :: (r.path ++ s.ending)) := by
      rw [stripScheme_none hscheme, if_neg fun h => hat h.1]
    refine normalize_colon hkept ?_
    rw [hjoin]
    exact List.not_mem_nil
  | some user =>
    have hat : '@' ∈ before '/'
        (credentials (some user) ++ (r.host ++ ':' :: (r.path ++ s.ending))) := by
      rw [hfirst]
      simp [credentials]
    have hreplaced : stripScheme
        (credentials (some user) ++ (r.host ++ ':' :: (r.path ++ s.ending))) =
        credentials (some user) ++ r.host ++ '/' :: '/' :: (r.path.tail ++ s.ending) := by
      rw [stripScheme_none hscheme, if_pos ⟨hat, by simp⟩, hsplit, replaceFirst,
        before_append hcolon, behind_append hcolon]
    have hfound : behindLast '@' (before '/'
          (credentials (some user) ++ r.host ++ '/' :: '/' :: (r.path.tail ++ s.ending))) ++
        '/' :: behind '/'
          (credentials (some user) ++ r.host ++ '/' :: '/' :: (r.path.tail ++ s.ending)) =
        r.host ++ '/' :: '/' :: (r.path.tail ++ s.ending) := by
      rw [before_append hslash, behind_append hslash,
        behindLast_credentials (some user) r.host_plain.2]
    unfold normalize
    rw [hreplaced]
    dsimp only
    rw [hfound]
    exact finish_rooted hr _

/-- The matching reads a spelling as the remote it spells exactly when it is plain. -/
theorem normalize_text (h : s.Fits r) : normalize (s.text r) = r.text ↔ s.Plain r := by
  have hstripped : ∀ user, (s.form ≠ .scp none false ∨ '@' ∈ before '/' r.path.tail) →
      (∀ user, s.form ≠ .scp user true) →
      stripScheme (s.text r) = credentials user ++ (r.host ++ r.path ++ s.ending) →
      (normalize (s.text r) = r.text ↔ s.Plain r) := by
    intro user hform hrooted hurl
    have hfound := host_found h user
    dsimp only at hfound
    unfold normalize
    rw [hurl]
    dsimp only
    rw [hfound, finish_assembled h, Spelling.Plain, and_iff_left]
    refine ⟨fun hscp => ?_, hrooted⟩
    exact hform.resolve_left (not_not.mpr hscp)
  cases hform : s.form with
  | https =>
    apply hstripped none (Or.inl (by rw [hform]; exact nofun)) (by rw [hform]; exact nofun)
    rw [Spelling.text, hform]
    exact stripScheme_https _
  | http =>
    apply hstripped none (Or.inl (by rw [hform]; exact nofun)) (by rw [hform]; exact nofun)
    rw [Spelling.text, hform]
    exact stripScheme_http _
  | git =>
    apply hstripped none (Or.inl (by rw [hform]; exact nofun)) (by rw [hform]; exact nofun)
    rw [Spelling.text, hform]
    exact stripScheme_git _
  | ssh user =>
    apply hstripped user (Or.inl (by rw [hform]; exact nofun)) (by rw [hform]; exact nofun)
    rw [Spelling.text, hform]
    exact stripScheme_ssh _
  | bare =>
    apply hstripped none (Or.inl (by rw [hform]; exact nofun)) (by rw [hform]; exact nofun)
    rw [Spelling.text, hform]
    exact stripScheme_bare h
  | scp user rooted =>
    have hr : r.segments ≠ [] := fun hr => h.2 (Or.inl hr) user rooted hform
    have hport : ':' ∉ r.host := fun hport => h.2 (Or.inr hport) user rooted hform
    cases rooted with
    | true =>
      have htext : s.text r = credentials user ++ (r.host ++ ':' :: (r.path ++ s.ending)) := by
        rw [Spelling.text, hform]
      rw [htext]
      exact iff_of_false (normalize_rooted hr hport user) fun hplain => hplain.2.2 user hform
    | false =>
      have hscp := stripScheme_scp (s := s) hr hport user
      have htext : s.text r =
          credentials user ++ (r.host ++ ':' :: (r.path.tail ++ s.ending)) := by
        rw [Spelling.text, hform]
      rw [← htext] at hscp
      by_cases hbare : user = none ∧ '@' ∉ before '/' r.path.tail
      · rw [if_pos hbare] at hscp
        have hplain : ¬ s.Plain r := fun hp => hbare.2 (hp.2.1 (by rw [hform, hbare.1]))
        have hhost : s.text r = r.host ++ ':' :: (r.path.tail ++ s.ending) := by
          rw [htext, hbare.1]
          rfl
        rw [hhost] at hscp ⊢
        have hat : '@' ∉ before '/' (r.path.tail ++ s.ending) :=
          fun hin => hbare.2 ((at_mem_before _ s).mp hin)
        exact iff_of_false (normalize_colon hscp hat) hplain
      · rw [if_neg hbare] at hscp
        apply hstripped user _ (by rw [hform]; exact nofun) hscp
        rw [not_and_or, not_not] at hbare
        obtain huser | hat := hbare
        · left
          rw [hform]
          intro heq
          exact huser (Form.scp.inj heq).1
        · exact Or.inr hat

end

theorem segments_slash (segments : List (List Char)) :
    ∃ rest, segments.flatMap ('/' :: ·) ++ ['/'] = '/' :: rest := by
  cases segments with
  | nil => exact ⟨[], rfl⟩
  | cons s ss => exact ⟨s ++ ss.flatMap ('/' :: ·) ++ ['/'], by simp⟩

theorem segments_prefix_iff {xs ys : List (List Char)} (hx : ∀ x ∈ xs, x ≠ [] ∧ '/' ∉ x)
    (hy : ∀ y ∈ ys, y ≠ [] ∧ '/' ∉ y) :
    xs.flatMap ('/' :: ·) ++ ['/'] <+: ys.flatMap ('/' :: ·) ++ ['/'] ↔ xs <+: ys := by
  induction xs generalizing ys with
  | nil =>
    obtain ⟨rest, hrest⟩ := segments_slash ys
    rw [hrest]
    simp
  | cons x xs ih =>
    obtain ⟨hne, hplain⟩ := hx x List.mem_cons_self
    have hxs : ∀ x ∈ xs, x ≠ [] ∧ '/' ∉ x := fun z hz => hx z (List.mem_cons_of_mem x hz)
    cases ys with
    | nil =>
      cases x with
      | nil => exact absurd rfl hne
      | cons c x => simp
    | cons y ys =>
      have hplain' := (hy y List.mem_cons_self).2
      have hys : ∀ y ∈ ys, y ≠ [] ∧ '/' ∉ y := fun z hz => hy z (List.mem_cons_of_mem y hz)
      obtain ⟨a, ha⟩ := segments_slash xs
      obtain ⟨b, hb⟩ := segments_slash ys
      have hstep := ih hxs hys
      rw [ha, hb] at hstep
      rw [List.flatMap_cons, List.flatMap_cons, List.append_assoc, List.append_assoc, ha, hb,
        List.cons_append, List.cons_append, List.cons_prefix_cons, slash_prefix_iff hplain hplain',
        hstep, List.cons_prefix_cons]
      simp

/-- Two normal forms are one below the other exactly as their hosts and segments are. -/
theorem text_prefix_iff (e r : Remote) :
    e.text <+: r.text ↔ e.host = r.host ∧ e.segments <+: r.segments := by
  have hsegments := segments_prefix_iff e.segments_plain r.segments_plain
  obtain ⟨a, ha⟩ := segments_slash e.segments
  obtain ⟨b, hb⟩ := segments_slash r.segments
  rw [Remote.text, Remote.text, Remote.path, Remote.path, List.append_assoc, List.append_assoc,
    ← hsegments, ha, hb]
  exact slash_prefix_iff e.host_plain.1 r.host_plain.1

theorem mem_text (r : Remote) (s : Spelling) {c : Char} (h : c ∈ r.host) : c ∈ s.text r := by
  unfold Spelling.text
  cases s.form with
  | scp user rooted => cases rooted <;> simp [h]
  | https | http | git | ssh | bare => simp [h]

section
variable [Lower]

/-- A text that spells a remote, once it is stripped and lowered. -/
structure Spelled where
  remote : Remote
  spelling : Spelling
  fits : spelling.Fits remote
  url : List Char
  lowered : Lower.lower (stripBlanks url) = spelling.text remote

def Spelled.Plain (u : Spelled) : Prop := u.spelling.Plain u.remote

theorem normalized (u : Spelled) : normalizeRemote u.url = u.remote.text ↔ u.Plain := by
  rw [normalizeRemote_eq, u.lowered]
  exact normalize_text u.fits

theorem url_ne_nil (u : Spelled) : u.url ≠ [] := by
  intro hnil
  have hlowered := u.lowered
  rw [hnil, show stripBlanks [] = [] from rfl, Lower.lower_nil] at hlowered
  obtain ⟨c, hc⟩ := List.exists_mem_of_ne_nil _ u.remote.host_ne_nil
  have hin := mem_text u.remote u.spelling hc
  rw [← hlowered] at hin
  exact List.not_mem_nil hin

/-- Texts that are read as they should be match by their hosts and segments. -/
theorem allowlisted (u : Spelled) (entries : List Spelled)
    (hu : normalizeRemote u.url = u.remote.text)
    (he : ∀ e ∈ entries, normalizeRemote e.url = e.remote.text) :
    remoteAllowlisted (some u.url) (entries.map (·.url)) = true ↔
      ∃ e ∈ entries, e.remote.host = u.remote.host ∧ e.remote.segments <+: u.remote.segments := by
  unfold remoteAllowlisted
  dsimp only [Option.getD_some]
  rw [if_neg (url_ne_nil u), List.any_eq_true]
  constructor
  · intro h
    obtain ⟨text, htext, hmatch⟩ := h
    obtain ⟨e, hin, rfl⟩ := List.mem_map.mp htext
    have hpre := of_decide_eq_true hmatch
    rw [he e hin, hu] at hpre
    exact ⟨e, hin, (text_prefix_iff e.remote u.remote).mp hpre⟩
  · intro h
    obtain ⟨e, hin, hmatch⟩ := h
    refine ⟨e.url, List.mem_map_of_mem hin, decide_eq_true ?_⟩
    rw [he e hin, hu]
    exact (text_prefix_iff e.remote u.remote).mpr hmatch

/-- The origin and the entries are read as their hosts and segments, and match by them, exactly when
all of them are written plainly. -/
theorem allowlist_form_independent_iff (u : Spelled) (entries : List Spelled) :
    (normalizeRemote u.url = u.remote.text ∧
      (∀ e ∈ entries, normalizeRemote e.url = e.remote.text) ∧
      (remoteAllowlisted (some u.url) (entries.map (·.url)) = true ↔
        ∃ e ∈ entries,
          e.remote.host = u.remote.host ∧ e.remote.segments <+: u.remote.segments)) ↔
    u.Plain ∧ ∀ e ∈ entries, e.Plain := by
  have hnormal : (∀ e ∈ entries, normalizeRemote e.url = e.remote.text) ↔
      ∀ e ∈ entries, e.Plain :=
    forall₂_congr (fun e _ => normalized e)
  constructor
  · intro h
    exact ⟨(normalized u).mp h.1, hnormal.mp h.2.1⟩
  · intro h
    have hu := (normalized u).mpr h.1
    have he := hnormal.mpr h.2
    exact ⟨hu, he, allowlisted u entries hu he⟩

end

/-- The letters that `str.lower` changes in an ASCII text. -/
instance asciiLower : Lower where
  lower := List.map Char.toLower
  lower_nil := rfl

def acmeRepo : Remote where
  host := "github.com".toList
  segments := ["acme".toList, "repo".toList]
  host_ne_nil := by simp
  host_plain := by simp
  no_scheme := by simp [schemes]
  segments_plain := by simp

/-- Behind slashes the '.git' stays, and the remote falls out of its own entry. -/
theorem git_slash_kept :
    ∃ url entry : Spelling, url.Fits acmeRepo ∧ entry.Fits acmeRepo ∧
      normalizeRemote (url.text acmeRepo) ≠ normalizeRemote (entry.text acmeRepo) ∧
      remoteAllowlisted (some (url.text acmeRepo)) [entry.text acmeRepo] = false := by
  refine ⟨⟨.https, true, 1⟩, ⟨.bare, false, 0⟩, ⟨nofun, fun _ _ => nofun⟩,
    ⟨fun _ => rfl, fun _ _ => nofun⟩, ?_⟩
  decide +kernel

end Sediment.Proofs.RemoteAllowlist
