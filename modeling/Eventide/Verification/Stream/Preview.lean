import Eventide.Model.Previews

/-! # What a preview shows

A preview is the cleaned text as long as no feed cuts through an occurrence of a secret, and then
it holds no secret. -/

namespace Eventide

open Text

/-- The secrets that the mark in their place does not show, and that a buffer can hold back. -/
structure Secrets (secrets : List PyStr) : Prop where
  opening : ∀ secret ∈ secrets, .scalar '[' ∉ secret
  closing : ∀ secret ∈ secrets, .scalar ']' ∉ secret
  inner : ∀ secret ∈ secrets, ¬ secret <:+: PyStr.ofString "REDACTED"
  length : ∀ secret ∈ secrets, secret.length ≤ 65537

namespace Secrets

variable {secrets : List PyStr} {secret : PyStr}

theorem ne_nil (h : Secrets secrets) (hsecret : secret ∈ secrets) : secret ≠ [] := by
  rintro rfl
  exact h.inner [] hsecret List.nil_infix

theorem tail (h : Secrets (secret :: secrets)) : Secrets secrets where
  opening other hother := h.opening other (List.mem_cons_of_mem _ hother)
  closing other hother := h.closing other (List.mem_cons_of_mem _ hother)
  inner other hother := h.inner other (List.mem_cons_of_mem _ hother)
  length other hother := h.length other (List.mem_cons_of_mem _ hother)

end Secrets

/-! ## Cleaning -/

theorem normalize_cons {secrets : List PyStr} {secret : PyStr} (h : secret ≠ []) (text : PyStr) :
    normalize (secret :: secrets) text = normalize secrets (replaceAll secret redacted text) := by
  rw [normalize, List.foldl_cons, if_pos h]
  rfl

/-- A text is cleaned part by part where no secret straddles the parts. -/
theorem normalize_append {secrets : List PyStr} (h : Secrets secrets) {first second : PyStr}
    (hapart : ∀ secret ∈ secrets, ¬ Straddles secret first second) :
    normalize secrets (first ++ second) = normalize secrets first ++ normalize secrets second := by
  induction secrets generalizing first second with
  | nil => rfl
  | cons secret secrets ih =>
    have hne := h.ne_nil List.mem_cons_self
    rw [normalize_cons hne, normalize_cons hne, normalize_cons hne,
      replaceAll_append (hapart secret List.mem_cons_self)]
    apply ih h.tail
    intro other hother hstraddles
    have hmem := List.mem_cons_of_mem secret hother
    exact hapart other hmem (hstraddles.of_replaceAll (h.opening other hmem) (h.closing other hmem))

/-- Cleaning adds no secret. -/
theorem infix_of_normalize {secrets : List PyStr} (h : Secrets secrets) {other text : PyStr}
    (hopen : .scalar '[' ∉ other) (hclose : .scalar ']' ∉ other)
    (hinner : ¬ other <:+: PyStr.ofString "REDACTED")
    (hother : other <:+: normalize secrets text) : other <:+: text := by
  induction secrets generalizing text with
  | nil => exact hother
  | cons secret secrets ih =>
    rw [normalize_cons (h.ne_nil List.mem_cons_self)] at hother
    exact infix_of_replaceFrom hopen hclose hinner (ih h.tail hother)

theorem not_infix_normalize {secrets : List PyStr} (h : Secrets secrets) {secret text : PyStr}
    (hsecret : secret ∈ secrets) : ¬ secret <:+: normalize secrets text := by
  induction secrets generalizing text with
  | nil => cases hsecret
  | cons first secrets ih =>
    rw [normalize_cons (h.ne_nil List.mem_cons_self)]
    rcases List.mem_cons.mp hsecret with rfl | hsecret
    · intro hinfix
      have hopen := h.opening secret List.mem_cons_self
      have hclose := h.closing secret List.mem_cons_self
      have hinner := h.inner secret List.mem_cons_self
      exact not_infix_replaceFrom hopen hclose hinner
        (infix_of_normalize h.tail hopen hclose hinner hinfix)
    · exact ih h.tail hsecret

namespace SafeTextBuffer

/-! ## The cut -/

/-- A cut falls strictly inside an occurrence of `secret`. -/
def Splits (pending : PyStr) (cut : ℕ) (secret : PyStr) : Prop :=
  Straddles secret (pending.take cut) (pending.drop cut)

variable {pending secret : PyStr} {cut start : ℕ}

theorem mem_occurrences :
    start ∈ occurrences secret pending ↔ start ≤ pending.length ∧ secret <+: pending.drop start := by
  rw [occurrences, List.mem_filter, List.mem_range, Nat.lt_succ_iff, List.isPrefixOf_iff_prefix]

/-- An occurrence that a cut falls into. -/
theorem splits_iff : Splits pending cut secret ↔
    ∃ start, secret <+: pending.drop start ∧ start < cut ∧ cut < start + secret.length ∧
      start ≤ pending.length := by
  constructor
  · rintro ⟨u, v, hu, hv, rfl, ⟨front, hfront⟩, ⟨rest, hrest⟩⟩
    have htext : pending = front ++ (u ++ v) ++ rest := by
      rw [← List.take_append_drop cut pending, ← hfront, ← hrest]
      simp
    have hcut : front.length + u.length = min cut pending.length := by
      rw [← List.length_append, hfront, List.length_take]
    have hlength := congrArg List.length htext
    simp only [List.length_append] at hlength
    have hupos := List.length_pos_iff.mpr hu
    have hvpos := List.length_pos_iff.mpr hv
    refine ⟨front.length, ?_, ?_, ?_, ?_⟩
    · rw [htext, List.append_assoc, List.drop_left]
      exact List.prefix_append _ _
    · omega
    · rw [List.length_append]
      omega
    · omega
  · rintro ⟨start, ⟨rest, hrest⟩, hstart, hcut, hle⟩
    have htext : pending = pending.take start ++ (secret ++ rest) := by
      rw [hrest, List.take_append_drop]
    have hlen : (pending.take start).length = start := by
      rw [List.length_take]
      omega
    refine ⟨secret.take (cut - start), secret.drop (cut - start), ?_, ?_,
      (List.take_append_drop _ _).symm, ?_, ?_⟩
    · rw [← List.length_pos_iff, List.length_take]
      omega
    · rw [← List.length_pos_iff, List.length_drop]
      omega
    · rw [htext, List.take_append, hlen, List.take_append_of_le_length (by omega)]
      exact List.suffix_append _ _
    · have hle' : cut - start ≤ secret.length := by omega
      have hfront : (pending.take start).length ≤ cut := by omega
      rw [htext, List.drop_append, hlen, List.drop_append_of_le_length hle',
        List.drop_eq_nil_of_le hfront, List.nil_append]
      exact List.prefix_append _ _

theorem lower_eq (h : ¬ Splits pending cut secret) : lower pending cut secret = cut := by
  unfold lower
  split
  · rename_i start hfind
    have hmem := mem_occurrences.mp (List.mem_of_find?_eq_some hfind)
    have hat := List.find?_some hfind
    simp only [decide_eq_true_eq] at hat
    exact absurd (splits_iff.mpr ⟨start, hmem.2, hat.1, hat.2, hmem.1⟩) h
  · rfl

theorem lower_of_splits (h : Splits pending cut secret) :
    lower pending cut secret < cut ∧ secret <+: pending.drop (lower pending cut secret) := by
  unfold lower
  split
  · rename_i start hfind
    have hat := List.find?_some hfind
    simp only [decide_eq_true_eq] at hat
    exact ⟨hat.1, (mem_occurrences.mp (List.mem_of_find?_eq_some hfind)).2⟩
  · rename_i hfind
    obtain ⟨start, hprefix, hstart, hcut, hle⟩ := splits_iff.mp h
    have hnone := List.find?_eq_none.mp hfind start (mem_occurrences.mpr ⟨hle, hprefix⟩)
    simp [hstart, hcut] at hnone

theorem foldl_lower_eq {secrets : List PyStr}
    (h : ∀ secret ∈ secrets, ¬ Splits pending cut secret) :
    secrets.foldl (lower pending) cut = cut := by
  induction secrets with
  | nil => rfl
  | cons secret secrets ih =>
    rw [List.foldl_cons, lower_eq (h secret List.mem_cons_self)]
    exact ih fun other hother => h other (List.mem_cons_of_mem _ hother)

/-- The cut is left where no secret is split, or goes to the start of an occurrence. -/
theorem foldl_lower_cases (secrets : List PyStr) (pending : PyStr) (cut : ℕ) :
    (secrets.foldl (lower pending) cut = cut ∧ ∀ secret ∈ secrets, ¬ Splits pending cut secret) ∨
      (secrets.foldl (lower pending) cut < cut ∧
        ∃ secret ∈ secrets, secret <+: pending.drop (secrets.foldl (lower pending) cut)) := by
  induction secrets generalizing cut with
  | nil => exact .inl ⟨rfl, by simp⟩
  | cons secret secrets ih =>
    rw [List.foldl_cons]
    by_cases hsplits : Splits pending cut secret
    · obtain ⟨hlt, hprefix⟩ := lower_of_splits hsplits
      rcases ih (lower pending cut secret) with ⟨heq, -⟩ | ⟨hless, other, hother, hother'⟩
      · rw [heq]
        exact .inr ⟨hlt, secret, List.mem_cons_self, hprefix⟩
      · exact .inr ⟨hless.trans hlt, other, List.mem_cons_of_mem _ hother, hother'⟩
    · rw [lower_eq hsplits]
      rcases ih cut with ⟨heq, hnone⟩ | ⟨hlt, other, hother, hprefix⟩
      · refine .inl ⟨heq, fun other hother => ?_⟩
        rcases List.mem_cons.mp hother with rfl | hother
        · exact hsplits
        · exact hnone other hother
      · exact .inr ⟨hlt, other, List.mem_cons_of_mem _ hother, hprefix⟩

theorem not_splits_length : ¬ Splits pending pending.length secret := by
  rintro ⟨u, v, -, hv, -, -, hsecond⟩
  rw [List.drop_length] at hsecond
  exact hv (List.prefix_nil.mp hsecond)

/-! ## A run of feeds -/

/-- A buffer for these secrets, which holds back as much as the longest of them needs. -/
structure Ready (secrets : List PyStr) (buffer : SafeTextBuffer) : Prop where
  secrets_eq : buffer.secrets = secrets
  clean : buffer.clean = normalize secrets
  enabled : buffer.enabled = true
  lookahead : ∀ secret ∈ secrets, secret.length ≤ buffer.lookahead + 1

variable {secrets : List PyStr} {buffer : SafeTextBuffer}

theorem length_le_foldl_max (lengths : List ℕ) (first : ℕ) :
    first ≤ lengths.foldl max first ∧ ∀ n ∈ lengths, n ≤ lengths.foldl max first := by
  induction lengths generalizing first with
  | nil => simp
  | cons n lengths ih =>
    obtain ⟨hle, hmem⟩ := ih (max first n)
    rw [List.foldl_cons]
    refine ⟨by omega, fun m hm => ?_⟩
    rcases List.mem_cons.mp hm with rfl | hm
    · omega
    · exact hmem m hm

theorem foldl_max_le {lengths : List ℕ} {first bound : ℕ} (hfirst : first ≤ bound)
    (h : ∀ n ∈ lengths, n ≤ bound) : lengths.foldl max first ≤ bound := by
  induction lengths generalizing first with
  | nil => exact hfirst
  | cons n lengths ih =>
    have hn := h n List.mem_cons_self
    exact ih (by omega) fun m hm => h m (List.mem_cons_of_mem _ hm)

theorem ready_make (h : Secrets secrets) : Ready secrets (make secrets (normalize secrets)) := by
  have hkept : secrets.filter (fun secret => decide (secret ≠ [])) = secrets :=
    List.filter_eq_self.mpr fun secret hsecret => decide_eq_true (h.ne_nil hsecret)
  refine ⟨hkept, rfl, ?_, fun secret hsecret => ?_⟩
  · simp only [make, hkept, decide_eq_true_eq]
    apply foldl_max_le (Nat.zero_le _)
    intro n hn
    obtain ⟨secret, hsecret, rfl⟩ := List.mem_map.mp hn
    have hlength := h.length secret hsecret
    omega
  · have hle := (length_le_foldl_max (secrets.map fun secret => secret.length - 1) 0).2
      (secret.length - 1) (List.mem_map_of_mem hsecret)
    simp only [make, hkept]
    exact Nat.sub_le_iff_le_add.mp hle

theorem feed_eq (h : Ready secrets buffer) (text : PyStr) (final : Bool) :
    buffer.feed text final =
      (normalize secrets ((buffer.pending ++ text).take (buffer.cut (buffer.pending ++ text) final)),
        { buffer with
          pending := (buffer.pending ++ text).drop (buffer.cut (buffer.pending ++ text) final) }) := by
  simp [feed, h.enabled, h.clean]

theorem Ready.feed (h : Ready secrets buffer) (text : PyStr) (final : Bool) :
    Ready secrets (buffer.feed text final).2 := by
  rw [feed_eq h]
  exact ⟨h.secrets_eq, h.clean, h.enabled, h.lookahead⟩

/-- The final call shows all that is pending. -/
theorem cut_final (buffer : SafeTextBuffer) (pending : PyStr) :
    buffer.cut pending true = pending.length :=
  foldl_lower_eq fun _ _ => not_splits_length

theorem cut_le (buffer : SafeTextBuffer) (pending : PyStr) :
    buffer.cut pending false ≤ pending.length - buffer.lookahead := by
  rcases foldl_lower_cases buffer.secrets pending (pending.length - buffer.lookahead) with
    ⟨heq, -⟩ | ⟨hlt, -⟩
  · exact heq.le
  · exact hlt.le

/-- No secret is split at the places where the calls with these fragments cut the pending text. -/
def Unsplit : SafeTextBuffer → List PyStr → Prop
  | _, [] => True
  | buffer, fragment :: fragments =>
    (∀ secret ∈ buffer.secrets, ¬ Splits (buffer.pending ++ fragment)
      (buffer.cut (buffer.pending ++ fragment) false) secret) ∧
      Unsplit (buffer.feed fragment false).2 fragments

/-- No two occurrences of secrets in a text overlap. -/
def Apart (secrets : List PyStr) (text : PyStr) : Prop :=
  ∀ first ∈ secrets, ∀ second ∈ secrets, ∀ i ∈ occurrences first text,
    ∀ j ∈ occurrences second text, i ≤ j → (i = j ∧ first = second) ∨ i + first.length ≤ j

instance (secrets : List PyStr) (text : PyStr) : Decidable (Apart secrets text) := by
  unfold Apart
  infer_instance

theorem mem_occurrences_drop {text : PyStr} {n i : ℕ} (hn : n ≤ text.length)
    (hi : i ∈ occurrences secret (text.drop n)) : n + i ∈ occurrences secret text := by
  obtain ⟨hle, hprefix⟩ := mem_occurrences.mp hi
  rw [List.length_drop] at hle
  rw [List.drop_drop] at hprefix
  exact mem_occurrences.mpr ⟨by omega, hprefix⟩

theorem Apart.drop {text : PyStr} (h : Apart secrets text) {n : ℕ} (hn : n ≤ text.length) :
    Apart secrets (text.drop n) := by
  intro first hfirst second hsecond i hi j hj hle
  rcases h first hfirst second hsecond (n + i) (mem_occurrences_drop hn hi) (n + j)
    (mem_occurrences_drop hn hj) (by omega) with ⟨hsame, heq⟩ | hend
  · exact .inl ⟨by omega, heq⟩
  · exact .inr (by omega)

/-- What a feed does not split in the pending text, it does not split in the whole of it. -/
theorem not_straddles_rest (h : Ready secrets buffer) {pending secret : PyStr}
    (hsecret : secret ∈ secrets) (hsplits : ¬ Splits pending (buffer.cut pending false) secret)
    (rest : PyStr) : ¬ Straddles secret (pending.take (buffer.cut pending false))
      (pending.drop (buffer.cut pending false) ++ rest) := by
  rintro ⟨u, v, hu, hv, rfl, hfirst, hsecond⟩
  have hcut := cut_le buffer pending
  have hlength := h.lookahead _ hsecret
  have hupos := List.length_pos_iff.mpr hu
  have hufits := hfirst.length_le
  rw [List.length_take] at hufits
  rcases prefix_append_cases hsecond with hsecond | ⟨w, rfl, -⟩
  · exact hsplits ⟨u, v, hu, hv, rfl, hfirst, hsecond⟩
  · cases w with
    | nil =>
      rw [List.append_nil] at hsplits hv
      exact hsplits ⟨u, _, hu, hv, rfl, hfirst, List.prefix_rfl⟩
    | cons c w =>
      simp only [List.length_append, List.length_cons, List.length_drop] at hlength
      omega

/-- Occurrences that do not overlap are not split. -/
theorem not_splits_of_apart (h : Ready secrets buffer) {pending rest secret : PyStr}
    (hapart : Apart secrets (pending ++ rest)) (hsecret : secret ∈ secrets) :
    ¬ Splits pending (buffer.cut pending false) secret := by
  have hwhole : ∀ {other : PyStr} {i : ℕ}, other <+: pending.drop i → i ≤ pending.length →
      i ∈ occurrences other (pending ++ rest) := by
    intro other i hother hi
    rw [mem_occurrences, List.drop_append_of_le_length hi, List.length_append]
    exact ⟨by omega, hother.trans (List.prefix_append _ _)⟩
  rcases foldl_lower_cases buffer.secrets pending (pending.length - buffer.lookahead) with
    ⟨heq, hnone⟩ | ⟨hlt, other, hother, hprefix⟩
  · rw [cut, if_neg Bool.false_ne_true, heq]
    exact hnone secret (h.secrets_eq ▸ hsecret)
  · intro hsplits
    obtain ⟨start, hstart, hless, hcut, hle⟩ := splits_iff.mp hsplits
    rw [cut, if_neg Bool.false_ne_true] at hless hcut
    rw [h.secrets_eq] at hother
    rcases hapart secret hsecret other hother start (hwhole hstart hle) _
      (hwhole hprefix (by omega)) hless.le with ⟨heq, -⟩ | hend
    · omega
    · omega

theorem unsplit_of_apart {fragments : List PyStr} {last : PyStr} (h : Ready secrets buffer)
    (hapart : Apart secrets (buffer.pending ++ fragments.flatten ++ last)) :
    Unsplit buffer fragments := by
  induction fragments generalizing buffer with
  | nil => trivial
  | cons fragment fragments ih =>
    have htext : buffer.pending ++ (fragment :: fragments).flatten ++ last =
        buffer.pending ++ fragment ++ (fragments.flatten ++ last) := by
      simp
    rw [htext] at hapart
    refine ⟨fun secret hsecret => ?_, ih (h.feed fragment false) ?_⟩
    · exact not_splits_of_apart h hapart (h.secrets_eq ▸ hsecret)
    · have hcut := cut_le buffer (buffer.pending ++ fragment)
      have hfits : buffer.cut (buffer.pending ++ fragment) false ≤
          (buffer.pending ++ fragment).length := by omega
      have hrest := hapart.drop (hfits.trans (by simp))
      rw [List.drop_append_of_le_length hfits] at hrest
      rw [feed_eq h, List.append_assoc]
      exact hrest

/-- A preview without split secrets is the cleaned text. -/
theorem preview_eq {fragments : List PyStr} {last : PyStr} (hsecrets : Secrets secrets)
    (h : Ready secrets buffer) (hunsplit : Unsplit buffer fragments) :
    buffer.preview fragments last =
      normalize secrets (buffer.pending ++ fragments.flatten ++ last) := by
  induction fragments generalizing buffer with
  | nil =>
    rw [preview, feed_eq h, cut_final, List.take_length, List.flatten_nil, List.append_nil]
  | cons fragment fragments ih =>
    obtain ⟨hfirst, hrest⟩ := hunsplit
    rw [preview, ih (h.feed fragment false) hrest, feed_eq h]
    simp only [List.append_assoc]
    rw [← normalize_append hsecrets]
    · rw [← List.append_assoc (List.take _ _), List.take_append_drop]
      simp
    · intro secret hsecret
      exact not_straddles_rest h hsecret (hfirst secret (h.secrets_eq ▸ hsecret)) _

/-! ## What a cut leaves to be seen -/

/-- An occurrence of the secret, from `start` on, lies over a place of the text. -/
structure Over (text secret : PyStr) (start place : ℕ) : Prop where
  occurs : secret <+: text.drop start
  before : start < place
  after : place < start + secret.length

/-- Where the secrets draw a boundary: each in its turn, to the beginning of its first occurrence
that lies over it. -/
inductive Drawn (text : PyStr) : List PyStr → ℕ → ℕ → Prop where
  | nil (place : ℕ) : Drawn text [] place place
  | stays {secret : PyStr} {secrets : List PyStr} {place boundary : ℕ}
      (hnone : ∀ start, ¬ Over text secret start place) (h : Drawn text secrets place boundary) :
      Drawn text (secret :: secrets) place boundary
  | moves {secret : PyStr} {secrets : List PyStr} {place start boundary : ℕ}
      (hover : Over text secret start place)
      (hfirst : ∀ other, Over text secret other place → start ≤ other)
      (h : Drawn text secrets start boundary) : Drawn text (secret :: secrets) place boundary

/-- The pieces that a text is taken in, where `lookahead` characters are held back, and more if a
boundary is drawn further, until the last call takes all. -/
inductive Divided (secrets : List PyStr) (lookahead : ℕ) :
    PyStr → List PyStr → PyStr → List PyStr → Prop where
  | last (pending last : PyStr) : Divided secrets lookahead pending [] last [pending ++ last]
  | call {pending fragment last : PyStr} {fragments pieces : List PyStr} {boundary : ℕ}
      (hdrawn : Drawn (pending ++ fragment) secrets ((pending ++ fragment).length - lookahead)
        boundary)
      (h : Divided secrets lookahead ((pending ++ fragment).drop boundary) fragments last pieces) :
      Divided secrets lookahead pending (fragment :: fragments) last
        ((pending ++ fragment).take boundary :: pieces)

/-- A text goes through the cleaning of the pieces that it begins. -/
def Shown (secrets : List PyStr) : List PyStr → PyStr → Prop
  | [], part => part = []
  | piece :: pieces, part => part <+: normalize secrets piece ∨
    ∃ rest, part = piece ++ rest ∧ normalize secrets piece = piece ∧ Shown secrets pieces rest

/-- Of each occurrence of a secret that ends beyond its piece, the part before the boundary or a
part behind it falls to another replacement. -/
def Covered (secrets pieces : List PyStr) : Prop :=
  ∀ before piece after, pieces = before ++ piece :: after → ∀ secret ∈ secrets,
    ∀ first rest, secret = first ++ rest → first ≠ [] → rest ≠ [] →
      first <:+ piece → rest <+: after.flatten →
        ¬ (first <:+ normalize secrets piece ∧ Shown secrets after rest)

theorem splits_iff_over : Splits pending cut secret ↔ ∃ start, Over pending secret start cut := by
  rw [splits_iff]
  constructor
  · rintro ⟨start, hoccurs, hbefore, hafter, -⟩
    exact ⟨start, hoccurs, hbefore, hafter⟩
  · rintro ⟨start, hoccurs, hbefore, hafter⟩
    refine ⟨start, hoccurs, hbefore, hafter, ?_⟩
    have hlength := hoccurs.length_le
    rw [List.length_drop] at hlength
    omega

/-- A turn of the loop draws the boundary to the first occurrence over it. -/
theorem lower_over (h : Over pending secret start cut) :
    Over pending secret (lower pending cut secret) cut ∧
      ∀ other, Over pending secret other cut → lower pending cut secret ≤ other := by
  have hmem {other : ℕ} (hother : Over pending secret other cut) :
      other ∈ occurrences secret pending := by
    have hlength := hother.occurs.length_le
    have hbefore := hother.before
    have hafter := hother.after
    rw [List.length_drop] at hlength
    exact mem_occurrences.mpr ⟨by omega, hother.occurs⟩
  unfold lower
  split
  · rename_i found hfind
    have hat := List.find?_some hfind
    simp only [decide_eq_true_eq] at hat
    refine ⟨⟨(mem_occurrences.mp (List.mem_of_find?_eq_some hfind)).2, hat.1, hat.2⟩, ?_⟩
    intro other hother
    by_contra hlt
    obtain ⟨-, front, back, heq, hnone⟩ := List.find?_eq_some_iff_append.mp hfind
    have hsorted : (occurrences secret pending).Pairwise (· < ·) :=
      List.pairwise_lt_range.filter _
    rw [heq, List.pairwise_append] at hsorted
    have hin := hmem hother
    rw [heq] at hin
    rcases List.mem_append.mp hin with hin | hin
    · have hfalse := hnone other hin
      simp [hother.before, hother.after] at hfalse
    · rcases List.mem_cons.mp hin with rfl | hin
      · omega
      · have hless := (List.pairwise_cons.mp hsorted.2.1).1 other hin
        omega
  · rename_i hfind
    have hnone := List.find?_eq_none.mp hfind start (hmem h)
    simp [h.before, h.after] at hnone

theorem drawn_iff {text : PyStr} {place boundary : ℕ} :
    Drawn text secrets place boundary ↔ secrets.foldl (lower text) place = boundary := by
  constructor
  · intro h
    induction h with
    | nil => rfl
    | stays hnone _ ih =>
      rw [List.foldl_cons, lower_eq fun hsplits => ?_]
      · exact ih
      · obtain ⟨start, hover⟩ := splits_iff_over.mp hsplits
        exact hnone start hover
    | moves hover hfirst _ ih =>
      obtain ⟨hlower, hleast⟩ := lower_over hover
      rw [List.foldl_cons, (hleast _ hover).antisymm (hfirst _ hlower)]
      exact ih
  · rintro rfl
    induction secrets generalizing place with
    | nil => exact .nil place
    | cons secret secrets ih =>
      rw [List.foldl_cons]
      by_cases hsplits : Splits text place secret
      · obtain ⟨start, hover⟩ := splits_iff_over.mp hsplits
        obtain ⟨hlower, hleast⟩ := lower_over hover
        exact .moves hlower hleast ih
      · rw [lower_eq hsplits]
        exact .stays (fun start hover => hsplits (splits_iff_over.mpr ⟨start, hover⟩)) ih

/-- The feeds show the cleaned pieces. -/
theorem preview_divided {pending last : PyStr} {fragments pieces : List PyStr} {lookahead : ℕ}
    (h : Ready secrets buffer) (hpending : buffer.pending = pending)
    (hlookahead : buffer.lookahead = lookahead)
    (hdivided : Divided secrets lookahead pending fragments last pieces) :
    buffer.preview fragments last = (pieces.map (normalize secrets)).flatten := by
  induction hdivided generalizing buffer with
  | last pending last =>
    rw [preview, feed_eq h, cut_final, List.take_length, hpending]
    simp
  | @call pending fragment last fragments pieces boundary hdrawn _ ih =>
    have hcut : buffer.cut (buffer.pending ++ fragment) false = boundary := by
      rw [cut, if_neg Bool.false_ne_true, h.secrets_eq, hpending, hlookahead]
      exact drawn_iff.mp hdrawn
    rw [preview, ih (h.feed fragment false) ?_ ?_, feed_eq h, hcut, hpending, List.map_cons,
      List.flatten_cons]
    · rw [feed_eq h, hcut, hpending]
    · rw [feed_eq h, hlookahead]

theorem exists_divided (secrets : List PyStr) (lookahead : ℕ) (pending : PyStr)
    (fragments : List PyStr) (last : PyStr) :
    ∃ pieces, Divided secrets lookahead pending fragments last pieces := by
  induction fragments generalizing pending with
  | nil => exact ⟨_, .last pending last⟩
  | cons fragment fragments ih =>
    obtain ⟨pieces, hpieces⟩ := ih ((pending ++ fragment).drop (secrets.foldl
      (lower (pending ++ fragment)) ((pending ++ fragment).length - lookahead)))
    exact ⟨_, .call (drawn_iff.mpr rfl) hpieces⟩

/-- What a cleaned text shows at its ends, without a mark, stands there in the text. -/
theorem prefix_of_normalize {secrets : List PyStr} (h : Secrets secrets) {part text : PyStr}
    (hopen : .scalar '[' ∉ part) (hpart : part <+: normalize secrets text) : part <+: text := by
  induction secrets generalizing text with
  | nil => exact hpart
  | cons secret secrets ih =>
    rw [normalize_cons (h.ne_nil List.mem_cons_self)] at hpart
    exact prefix_of_replaceFrom hopen (ih h.tail hpart)

theorem suffix_of_normalize {secrets : List PyStr} (h : Secrets secrets) {part text : PyStr}
    (hopen : .scalar '[' ∉ part) (hclose : .scalar ']' ∉ part)
    (hpart : part <:+ normalize secrets text) : part <:+ text := by
  induction secrets generalizing text with
  | nil => exact hpart
  | cons secret secrets ih =>
    rw [normalize_cons (h.ne_nil List.mem_cons_self)] at hpart
    exact suffix_of_replaceFrom hopen hclose (ih h.tail hpart)

theorem normalize_eq_self {secrets : List PyStr} (h : Secrets secrets) {text : PyStr}
    (hopen : .scalar '[' ∉ normalize secrets text) : normalize secrets text = text := by
  induction secrets generalizing text with
  | nil => rfl
  | cons secret secrets ih =>
    rw [normalize_cons (h.ne_nil List.mem_cons_self)] at hopen ⊢
    have hrest := ih h.tail hopen
    exact replaceFrom_eq_self hopen hrest

/-- What the cleaned pieces show at their beginning. -/
theorem shown_iff (h : Secrets secrets) {pieces : List PyStr} {part : PyStr}
    (hopen : .scalar '[' ∉ part) :
    Shown secrets pieces part ↔ part <+: (pieces.map (normalize secrets)).flatten := by
  induction pieces generalizing part with
  | nil => simp [Shown]
  | cons piece pieces ih =>
    rw [Shown, List.map_cons, List.flatten_cons]
    constructor
    · rintro (hpart | ⟨rest, rfl, hsame, hrest⟩)
      · exact hpart.trans (List.prefix_append _ _)
      · rw [List.mem_append, not_or] at hopen
        rw [hsame, List.prefix_append_right_inj]
        exact (ih hopen.2).mp hrest
    · intro hpart
      rcases prefix_append_cases hpart with hpart | ⟨rest, rfl, hrest⟩
      · exact .inl hpart
      · rw [List.mem_append, not_or] at hopen
        have hsame := normalize_eq_self h hopen.1
        exact .inr ⟨rest, by rw [hsame], hsame, (ih hopen.2).mpr hrest⟩

theorem Shown.front (h : Secrets secrets) {pieces : List PyStr} {part : PyStr}
    (hopen : .scalar '[' ∉ part) (hshown : Shown secrets pieces part) :
    part <+: pieces.flatten := by
  induction pieces generalizing part with
  | nil =>
    rw [Shown] at hshown
    rw [hshown]
    exact List.nil_prefix
  | cons piece pieces ih =>
    rw [List.flatten_cons]
    rcases hshown with hpart | ⟨rest, rfl, -, hrest⟩
    · exact (prefix_of_normalize h hopen hpart).trans (List.prefix_append _ _)
    · rw [List.mem_append, not_or] at hopen
      exact (List.prefix_append_right_inj piece).mpr (ih hopen.2 hrest)

/-- The cleaned pieces show no secret exactly if each occurrence over a boundary is covered. -/
theorem covered_iff (h : Secrets secrets) {pieces : List PyStr} : Covered secrets pieces ↔
    ∀ secret ∈ secrets, ¬ secret <:+: (pieces.map (normalize secrets)).flatten := by
  have hpieces (secret : PyStr) (hsecret : secret ∈ secrets) :
      ∀ part ∈ pieces.map (normalize secrets), ¬ secret <:+: part := by
    intro part hpart
    obtain ⟨piece, -, rfl⟩ := List.mem_map.mp hpart
    exact not_infix_normalize h hsecret
  constructor
  · intro hcovered secret hsecret hleak
    rw [infix_flatten_iff (h.ne_nil hsecret) (hpieces secret hsecret)] at hleak
    obtain ⟨before, part, after, heq, first, rest, hfirst, hrest, rfl, hend, hbegin⟩ := hleak
    obtain ⟨front, back, rfl, rfl, hback⟩ := List.map_eq_append_iff.mp heq
    obtain ⟨piece, behind, rfl, rfl, rfl⟩ := List.map_eq_cons_iff.mp hback
    have hopen := h.opening _ hsecret
    have hclose := h.closing _ hsecret
    rw [List.mem_append, not_or] at hopen hclose
    have hshown := (shown_iff h hopen.2).mpr hbegin
    exact hcovered front piece behind rfl _ hsecret first rest rfl hfirst hrest
      (suffix_of_normalize h hopen.1 hclose.1 hend) (hshown.front h hopen.2) ⟨hend, hshown⟩
  · rintro hsafe before piece after rfl secret hsecret first rest rfl hfirst hrest - - ⟨hend, hshown⟩
    have hopen := h.opening _ hsecret
    rw [List.mem_append, not_or] at hopen
    refine hsafe _ hsecret ((infix_flatten_iff (h.ne_nil hsecret) (hpieces _ hsecret)).mpr
      ⟨before.map (normalize secrets), _, after.map (normalize secrets), by simp, first, rest,
        hfirst, hrest, rfl, hend, (shown_iff h hopen.2).mp hshown⟩)

/-- Two cuts into one secret that overlaps itself. -/
example : PyStr.ofString "aa" <:+: (make [PyStr.ofString "aa"]
    (normalize [PyStr.ofString "aa"])).preview [PyStr.ofString "aaa", PyStr.ofString "a"] [] := by
  decide +kernel

end SafeTextBuffer

end Eventide
