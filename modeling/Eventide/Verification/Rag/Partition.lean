import Eventide.Library.Tiling
import Eventide.Model.CodeStructure
import Eventide.Verification.Tools.Text
import Mathlib.Data.List.Dedup

/-! # Exact sections

Exactly where the ranges of the symbols are nested and bounded by characters, there are sections; they
tile the text, and each has the heading of the deepest symbol around it. -/

namespace Eventide

open Outcome Tiling

namespace CodeStructure

/-! ## The forest -/

/-- A symbol of a forest, with its depth. -/
inductive InForest : List Symbol → ℕ → Symbol → Prop
  | root {symbols : List Symbol} {symbol : Symbol} (h : symbol ∈ symbols) :
      InForest symbols 0 symbol
  | child {symbols : List Symbol} {parent symbol : Symbol} {depth : ℕ} (hp : parent ∈ symbols)
      (h : InForest parent.children depth symbol) : InForest symbols (depth + 1) symbol

/-- A symbol contains a range. -/
def Symbol.Holds (symbol : Symbol) (start stop : ℕ) : Prop :=
  symbol.start ≤ start ∧ stop ≤ symbol.stop

/-- A symbol and a range have something in common. -/
def Symbol.Meets (symbol : Symbol) (start stop : ℕ) : Prop :=
  symbol.start < stop ∧ start < symbol.stop

theorem Symbol.Holds.meets {symbol : Symbol} {start stop : ℕ} (h : symbol.Holds start stop)
    (hlt : start < stop) : symbol.Meets start stop :=
  ⟨h.1.trans_lt hlt, hlt.trans_le h.2⟩

/-- The heading of a range: that of the deepest symbol around it, or the one from outside. -/
inductive Labelled (symbols : List Symbol) (start stop : ℕ) (outer : String) : String → Prop
  | outside (h : ∀ depth symbol, InForest symbols depth symbol → ¬ symbol.Meets start stop) :
      Labelled symbols start stop outer outer
  | inside {depth : ℕ} {symbol : Symbol} (hin : InForest symbols depth symbol)
      (hholds : symbol.Holds start stop)
      (hdeepest : ∀ other otherDepth, InForest symbols otherDepth other →
        other.Holds start stop → otherDepth < depth ∨ otherDepth = depth ∧ other = symbol) :
      Labelled symbols start stop outer symbol.heading

/-- Symbols in order, each with its children inside it. -/
inductive Fits : ℕ → ℕ → List Symbol → Prop
  | nil {start stop : ℕ} (h : start ≤ stop) : Fits start stop []
  | cons {start stop : ℕ} {child : Symbol} {rest : List Symbol} (hstart : start ≤ child.start)
      (hne : child.start < child.stop) (hchildren : Fits child.start child.stop child.children)
      (hrest : Fits child.stop stop rest) : Fits start stop (child :: rest)

theorem Fits.le {start stop : ℕ} {symbols : List Symbol} (h : Fits start stop symbols) :
    start ≤ stop := by
  induction h with
  | nil h => exact h
  | cons hstart hne _ _ _ ih => omega

/-- The symbols of a forest lie in its range. -/
theorem Fits.bounds {start stop : ℕ} {symbols : List Symbol} (h : Fits start stop symbols)
    {depth : ℕ} {symbol : Symbol} (hin : InForest symbols depth symbol) :
    start ≤ symbol.start ∧ symbol.start < symbol.stop ∧ symbol.stop ≤ stop := by
  induction h generalizing depth symbol with
  | nil _ => cases hin with
    | root h => cases h
    | child hp h => cases hp
  | @cons start stop child rest hstart hne hchildren hrest ihchildren ihrest =>
    have hle := hrest.le
    have hlater {d : ℕ} (h : InForest rest d symbol) :
        start ≤ symbol.start ∧ symbol.start < symbol.stop ∧ symbol.stop ≤ stop := by
      have hbounds := ihrest h
      omega
    cases hin with
    | root hmem =>
      rcases List.mem_cons.mp hmem with rfl | hmem
      · omega
      · exact hlater (.root hmem)
    | @child _ parent _ d hp h =>
      rcases List.mem_cons.mp hp with rfl | hp
      · have hbounds := ihchildren h
        omega
      · exact hlater (.child hp h)

/-! ## The sections of a forest -/

/-- A section, unless it is empty. -/
def gap (start stop : ℕ) (heading : String) : List Piece :=
  if start < stop then [⟨start, stop, heading⟩] else []

/-- The sections of a range with symbols in it. -/
def cover (heading : String) (start stop : ℕ) : List Symbol → List Piece
  | [] => gap start stop heading
  | .mk first last inner children :: rest =>
    gap start first heading ++ cover inner first last children ++ cover heading last stop rest

theorem cover_cons (heading : String) (start stop : ℕ) (child : Symbol) (rest : List Symbol) :
    cover heading start stop (child :: rest) = gap start child.start heading ++
      cover child.heading child.start child.stop child.children ++
        cover heading child.stop stop rest := by
  cases child
  rw [cover]
  rfl

abbrev Covers (first : ℕ) (pieces : List Piece) (last : ℕ) : Prop :=
  Tiles Piece.start Piece.stop first pieces last

theorem gap_covers {start stop : ℕ} (h : start ≤ stop) (heading : String) :
    Covers start (gap start stop heading) stop := by
  rw [gap]
  split
  · exact ⟨rfl, by assumption, rfl⟩
  · exact le_antisymm h (not_lt.mp (by assumption))

theorem Fits.covers {start stop : ℕ} {symbols : List Symbol} (h : Fits start stop symbols)
    (heading : String) : Covers start (cover heading start stop symbols) stop := by
  induction h generalizing heading with
  | nil h =>
    rw [cover]
    exact gap_covers h heading
  | cons hstart hne _ _ ihchildren ihrest =>
    rw [cover_cons]
    exact ((gap_covers hstart heading).append (ihchildren _)).append (ihrest heading)

/-! ## The headings -/

theorem InForest.later {child symbol : Symbol} {rest : List Symbol} {depth : ℕ}
    (h : InForest rest depth symbol) : InForest (child :: rest) depth symbol := by
  cases h with
  | root h => exact .root (List.mem_cons_of_mem _ h)
  | child hp h => exact .child (List.mem_cons_of_mem _ hp) h

/-- A symbol of a forest is its first tree's root, below this root, or in the other trees. -/
theorem InForest.cases_cons {child symbol : Symbol} {rest : List Symbol} {depth : ℕ}
    (h : InForest (child :: rest) depth symbol) :
    depth = 0 ∧ symbol = child ∨
      (∃ inner, depth = inner + 1 ∧ InForest child.children inner symbol) ∨
        InForest rest depth symbol := by
  cases h with
  | root h =>
    rcases List.mem_cons.mp h with rfl | h
    · exact .inl ⟨rfl, rfl⟩
    · exact .inr (.inr (.root h))
  | child hp h =>
    rcases List.mem_cons.mp hp with rfl | hp
    · exact .inr (.inl ⟨_, rfl, h⟩)
    · exact .inr (.inr (.child hp h))

variable {start stop : ℕ} {child : Symbol} {rest : List Symbol} {outer heading : String}

/-- Where no symbol of the other trees contains the range, the first tree gives the heading. -/
theorem Labelled.of_child (h : Labelled child.children start stop child.heading heading)
    (hlt : start < stop) (hchild : child.Holds start stop)
    (hrest : ∀ depth symbol, InForest rest depth symbol → ¬ symbol.Holds start stop) :
    Labelled (child :: rest) start stop outer heading := by
  cases h with
  | outside h =>
    apply Labelled.inside (.root List.mem_cons_self) hchild
    intro other otherDepth hin hholds
    rcases hin.cases_cons with ⟨rfl, rfl⟩ | ⟨inner, rfl, hbelow⟩ | hlater
    · exact .inr ⟨rfl, rfl⟩
    · exact absurd (hholds.meets hlt) (h _ _ hbelow)
    · exact absurd hholds (hrest _ _ hlater)
  | @inside depth symbol hin hholds hdeepest =>
    apply Labelled.inside (.child List.mem_cons_self hin) hholds
    intro other otherDepth hother hholds
    rcases hother.cases_cons with ⟨rfl, rfl⟩ | ⟨inner, rfl, hbelow⟩ | hlater
    · exact .inl (Nat.succ_pos depth)
    · rcases hdeepest other inner hbelow hholds with hlt | ⟨rfl, rfl⟩
      · exact .inl (Nat.succ_lt_succ hlt)
      · exact .inr ⟨rfl, rfl⟩
    · exact absurd hholds (hrest _ _ hlater)

/-- Where no symbol of the first tree meets the range, the other trees give the heading. -/
theorem Labelled.of_rest (h : Labelled rest start stop outer heading) (hlt : start < stop)
    (hchild : ∀ depth symbol, InForest [child] depth symbol → ¬ symbol.Meets start stop) :
    Labelled (child :: rest) start stop outer heading := by
  have hfirst {depth : ℕ} {symbol : Symbol} (hin : InForest (child :: rest) depth symbol)
      (hmeets : symbol.Meets start stop) : InForest rest depth symbol := by
    rcases hin.cases_cons with ⟨rfl, rfl⟩ | ⟨inner, rfl, hbelow⟩ | hlater
    · exact absurd hmeets (hchild _ _ (.root List.mem_cons_self))
    · exact absurd hmeets (hchild _ _ (.child List.mem_cons_self hbelow))
    · exact hlater
  cases h with
  | outside h => exact .outside fun depth symbol hin hmeets => h _ _ (hfirst hin hmeets) hmeets
  | inside hin hholds hdeepest =>
    exact .inside hin.later hholds fun other otherDepth hother hother' =>
      hdeepest _ _ (hfirst hother (hother'.meets hlt)) hother'

theorem mem_gap {piece : Piece} (h : piece ∈ gap start stop heading) :
    start < stop ∧ piece = ⟨start, stop, heading⟩ := by
  rw [gap] at h
  split at h
  · exact ⟨by assumption, List.mem_singleton.mp h⟩
  · cases h

theorem Fits.labelled {symbols : List Symbol} (h : Fits start stop symbols) {piece : Piece}
    (hmem : piece ∈ cover outer start stop symbols) :
    Labelled symbols piece.start piece.stop outer piece.heading := by
  induction h generalizing outer with
  | nil _ =>
    rw [cover] at hmem
    obtain ⟨-, rfl⟩ := mem_gap hmem
    apply Labelled.outside
    intro depth symbol hin
    cases hin with
    | root h => cases h
    | child hp h => cases hp
  | @cons start stop child rest hstart hne hchildren hrest ihchildren ihrest =>
    have hfirst : Fits child.start child.stop [child] :=
      .cons (le_refl _) hne hchildren (.nil (le_refl _))
    rw [cover_cons, List.append_assoc, List.mem_append, List.mem_append] at hmem
    rcases hmem with hmem | hmem | hmem
    · -- before the first symbol
      obtain ⟨hlt, rfl⟩ := mem_gap hmem
      apply Labelled.outside
      intro depth symbol hin hmeets
      have hall : Fits child.start stop (child :: rest) := .cons (le_refl _) hne hchildren hrest
      have hbounds := hall.bounds hin
      have hbefore := hmeets.1
      dsimp only at hbefore
      omega
    · -- inside the first symbol
      have hbounds := (hchildren.covers child.heading).bounds hmem
      apply (ihchildren hmem).of_child hbounds.2.1 ⟨hbounds.1, hbounds.2.2⟩
      intro depth symbol hin hholds
      have hlater := hrest.bounds hin
      have hle := hholds.1
      omega
    · -- after the first symbol
      have hbounds := (hrest.covers outer).bounds hmem
      apply (ihrest hmem).of_rest hbounds.2.1
      intro depth symbol hin hmeets
      have hearlier := hfirst.bounds hin
      have hafter := hmeets.2
      omega

/-- The sections begin and end where the range, or a symbol, begins or ends. -/
theorem Fits.forall_bounds {symbols : List Symbol} {P : ℕ → Prop} (h : Fits start stop symbols)
    (hstart : P start) (hstop : P stop)
    (hall : ∀ depth symbol, InForest symbols depth symbol → P symbol.start ∧ P symbol.stop)
    {piece : Piece} (hmem : piece ∈ cover outer start stop symbols) :
    P piece.start ∧ P piece.stop := by
  induction h generalizing outer with
  | nil _ =>
    rw [cover] at hmem
    obtain ⟨-, rfl⟩ := mem_gap hmem
    exact ⟨hstart, hstop⟩
  | cons hle hne hchildren hrest ihchildren ihrest =>
    obtain ⟨hfirst, hlast⟩ := hall 0 _ (.root List.mem_cons_self)
    rw [cover_cons, List.append_assoc, List.mem_append, List.mem_append] at hmem
    rcases hmem with hmem | hmem | hmem
    · obtain ⟨-, rfl⟩ := mem_gap hmem
      exact ⟨hstart, hfirst⟩
    · exact ihchildren hfirst hlast
        (fun depth symbol hin => hall _ _ (.child List.mem_cons_self hin)) hmem
    · exact ihrest hlast hstop (fun depth symbol hin => hall _ _ hin.later) hmem

/-- A section begins where a symbol begins, and one ends where it ends. -/
theorem Fits.exists_bounds {symbols : List Symbol} (h : Fits start stop symbols) {depth : ℕ}
    {symbol : Symbol} (hin : InForest symbols depth symbol) :
    (∃ piece ∈ cover outer start stop symbols, piece.start = symbol.start) ∧
      ∃ piece ∈ cover outer start stop symbols, piece.stop = symbol.stop := by
  induction h generalizing outer depth with
  | nil _ => cases hin with
    | root h => cases h
    | child hp h => cases hp
  | @cons start stop child rest hle hne hchildren hrest ihchildren ihrest =>
    rw [cover_cons]
    have hinner {piece : Piece}
        (h : piece ∈ cover child.heading child.start child.stop child.children) :
        piece ∈ gap start child.start outer ++
          cover child.heading child.start child.stop child.children ++
            cover outer child.stop stop rest :=
      List.mem_append_left _ (List.mem_append_right _ h)
    rcases hin.cases_cons with ⟨rfl, rfl⟩ | ⟨inner, rfl, hbelow⟩ | hlater
    · obtain ⟨⟨first, hfirst, heq⟩, last, hlast, heq'⟩ := (hchildren.covers _).ends hne
      exact ⟨⟨first, hinner hfirst, heq⟩, last, hinner hlast, heq'⟩
    · obtain ⟨⟨first, hfirst, heq⟩, last, hlast, heq'⟩ := ihchildren hbelow
      exact ⟨⟨first, hinner hfirst, heq⟩, last, hinner hlast, heq'⟩
    · obtain ⟨⟨first, hfirst, heq⟩, last, hlast, heq'⟩ := ihrest hlater
      exact ⟨⟨first, List.mem_append_right _ hfirst, heq⟩, last,
        List.mem_append_right _ hlast, heq'⟩

/-! ## The walk -/

/-- The sections of a range that is still to be cut. -/
def Part.sections (part : Part) : List Piece :=
  cover part.heading part.start part.stop part.children

abbrev Part.Fits (part : Part) : Prop := CodeStructure.Fits part.start part.stop part.children

/-- What cutting a range at its children leaves. -/
structure Cut (part : Part) (cursor : ℕ) (children : List Symbol) (parts : List Part) : Prop where
  ordered : ∀ p ∈ parts, p.start ≤ p.stop
  fits : (∀ p ∈ parts, p.Fits) → CodeStructure.Fits cursor part.stop children
  sections : parts.flatMap Part.sections = cover part.heading cursor part.stop children

theorem mem_gap_part (piece : Piece) {p : Part}
    (h : p ∈ if piece.start < piece.stop then [(⟨piece, []⟩ : Part)] else []) :
    p.start ≤ p.stop := by
  split at h
  · obtain rfl := List.mem_singleton.mp h
    exact Nat.le_of_lt (by assumption)
  · cases h

theorem sections_gap (start stop : ℕ) (heading : String) :
    (if start < stop then [(⟨⟨start, stop, heading⟩, []⟩ : Part)] else []).flatMap Part.sections =
      gap start stop heading := by
  by_cases h : start < stop
  · rw [if_pos h, List.flatMap_singleton, Part.sections, cover]
  · rw [if_neg h, gap, if_neg h]
    rfl

theorem cutPart_spec {part : Part} {cursor : ℕ} {children : List Symbol} {parts : List Part}
    (hcursor : cursor ≤ part.stop) (h : cutPart part cursor children = .ok parts) :
    Cut part cursor children parts := by
  induction children generalizing cursor parts with
  | nil =>
    obtain rfl := Except.ok.inj h
    exact ⟨fun p hp => mem_gap_part ⟨cursor, part.stop, part.heading⟩ hp,
      fun _ => .nil hcursor, by rw [sections_gap, cover]⟩
  | cons child children ih =>
    rw [cutPart] at h
    split at h
    · cases h
    · rename_i hguard
      obtain ⟨more, hmore, h⟩ := bind_eq_ok.mp h
      obtain rfl := Except.ok.inj h
      have hle : cursor ≤ child.start ∧ child.stop ≤ part.stop ∧ child.start < child.stop := by
        omega
      obtain ⟨hordered, hfits, hsections⟩ := ih hle.2.1 hmore
      refine ⟨fun p hp => ?_, fun hall => ?_, ?_⟩
      · rcases List.mem_append.mp hp with hp | hp
        · exact mem_gap_part ⟨cursor, child.start, part.heading⟩ hp
        · rcases List.mem_cons.mp hp with rfl | hp
          · exact Nat.le_of_lt hle.2.2
          · exact hordered p hp
      · refine .cons hle.1 hle.2.2 ?_ (hfits fun p hp => ?_)
        · exact hall _ (List.mem_append_right _ List.mem_cons_self)
        · exact hall p (List.mem_append_right _ (List.mem_cons_of_mem _ hp))
      · rw [List.flatMap_append, sections_gap, List.flatMap_cons, hsections, cover_cons,
          List.append_assoc]
        rfl

theorem cutAll_cons (part : Part) (pending : List Part) (sections : List Piece) :
    cutAll (part :: pending) sections = cutPart part part.start part.children >>= fun parts =>
      if part.children ≠ [] then cutAll (parts ++ pending) sections
      else cutAll pending (sections ++ if part.start < part.stop then [part.toPiece] else []) := by
  rw [cutAll]
  split
  · rename_i hparts
    rw [hparts, error_bind]
  · rename_i hparts
    rw [hparts, ok_bind]
    rfl

/-- The walk finds the sections of the ranges on the stack, each of which is in order. -/
theorem cutAll_ok {pending : List Part} {sections pieces : List Piece}
    (hordered : ∀ part ∈ pending, part.start ≤ part.stop)
    (h : cutAll pending sections = .ok pieces) :
    (∀ part ∈ pending, part.Fits) ∧ pieces = sections ++ pending.flatMap Part.sections := by
  induction pending, sections using cutAll.induct with
  | case1 sections =>
    rw [cutAll] at h
    obtain rfl := Except.ok.inj h
    exact ⟨fun _ hp => (nomatch hp), (List.append_nil _).symm⟩
  | case2 sections part pending error hparts =>
    rw [cutAll_cons, hparts, error_bind] at h
    cases h
  | case3 sections part pending parts hparts hne ih =>
    rw [cutAll_cons, hparts, ok_bind, if_pos hne] at h
    obtain ⟨hpart, hpending⟩ := List.forall_mem_cons.mp hordered
    have hcut := cutPart_spec hpart hparts
    have hmore : ∀ p ∈ parts ++ pending, p.start ≤ p.stop := by
      intro p hp
      rcases List.mem_append.mp hp with hp | hp
      · exact hcut.ordered p hp
      · exact hpending p hp
    obtain ⟨hfits, rfl⟩ := ih hmore h
    constructor
    · rintro p hp
      rcases List.mem_cons.mp hp with rfl | hp
      · exact hcut.fits fun p hp => hfits p (List.mem_append_left _ hp)
      · exact hfits p (List.mem_append_right _ hp)
    · rw [List.flatMap_append, hcut.sections, List.flatMap_cons]
      rfl
  | case4 sections part pending parts hparts hnil ih =>
    rw [cutAll_cons, hparts, ok_bind, if_neg hnil] at h
    obtain ⟨hpart, hpending⟩ := List.forall_mem_cons.mp hordered
    obtain ⟨hfits, rfl⟩ := ih hpending h
    have hchildren : part.children = [] := not_not.mp hnil
    constructor
    · rintro p hp
      rcases List.mem_cons.mp hp with rfl | hp
      · rw [Part.Fits, hchildren]
        exact .nil hpart
      · exact hfits p hp
    · rw [List.append_assoc, List.flatMap_cons, Part.sections, hchildren, cover]
      rfl

theorem cutPart_of_fits {part : Part} {cursor : ℕ} {children : List Symbol}
    (h : CodeStructure.Fits cursor part.stop children) :
    ∃ parts, cutPart part cursor children = .ok parts ∧ ∀ p ∈ parts, p.Fits := by
  have hgap (piece : Piece) : ∀ p ∈ if piece.start < piece.stop then [(⟨piece, []⟩ : Part)] else [],
      p.Fits := by
    intro p hp
    split at hp
    · obtain rfl := List.mem_singleton.mp hp
      exact .nil (Nat.le_of_lt (by assumption))
    · cases hp
  induction children generalizing cursor with
  | nil => exact ⟨_, rfl, hgap ⟨cursor, part.stop, part.heading⟩⟩
  | cons child children ih =>
    cases h with
    | cons hstart hne hchildren hrest =>
      obtain ⟨more, hmore, hfits⟩ := ih hrest
      have hle := hrest.le
      rw [cutPart, if_neg (by omega), hmore]
      refine ⟨_, rfl, fun p hp => ?_⟩
      rcases List.mem_append.mp hp with hp | hp
      · exact hgap ⟨cursor, child.start, part.heading⟩ p hp
      · rcases List.mem_cons.mp hp with rfl | hp
        · exact hchildren
        · exact hfits p hp

/-- The walk finds no overlap where there is none. -/
theorem cutAll_of_fits {pending : List Part} {sections : List Piece}
    (h : ∀ part ∈ pending, part.Fits) : ∃ pieces, cutAll pending sections = .ok pieces := by
  induction pending, sections using cutAll.induct with
  | case1 sections => exact ⟨sections, by rw [cutAll]⟩
  | case2 sections part pending error hparts =>
    obtain ⟨parts, hok, -⟩ := cutPart_of_fits (List.forall_mem_cons.mp h).1
    rw [hok] at hparts
    cases hparts
  | case3 sections part pending parts hparts hne ih =>
    rw [cutAll_cons, hparts, ok_bind, if_pos hne]
    obtain ⟨hpart, hpending⟩ := List.forall_mem_cons.mp h
    obtain ⟨parts', hok, hfits⟩ := cutPart_of_fits hpart
    rw [hparts] at hok
    obtain rfl := Except.ok.inj hok
    exact ih (List.forall_mem_append.mpr ⟨hfits, hpending⟩)
  | case4 sections part pending parts hparts hnil ih =>
    rw [cutAll_cons, hparts, ok_bind, if_neg hnil]
    exact ih (List.forall_mem_cons.mp h).2

theorem cutPart_error {part : Part} {cursor : ℕ} {children : List Symbol} {error : PyError}
    (h : cutPart part cursor children = .error error) : isValueError error := by
  induction children generalizing cursor with
  | nil => cases h
  | cons child children ih =>
    rw [cutPart] at h
    split at h
    · obtain rfl := Except.error.inj h
      rfl
    · cases hrest : cutPart part child.stop children with
      | error error' =>
        rw [hrest, error_bind] at h
        obtain rfl := Except.error.inj h
        exact ih hrest
      | ok parts =>
        rw [hrest, ok_bind] at h
        cases h

theorem cutAll_error {pending : List Part} {sections : List Piece} {error : PyError}
    (h : cutAll pending sections = .error error) : isValueError error := by
  induction pending, sections using cutAll.induct with
  | case1 sections =>
    rw [cutAll] at h
    cases h
  | case2 sections part pending error' hparts =>
    rw [cutAll_cons, hparts, error_bind] at h
    obtain rfl := Except.error.inj h
    exact cutPart_error hparts
  | case3 sections part pending parts hparts hne ih =>
    rw [cutAll_cons, hparts, ok_bind, if_pos hne] at h
    exact ih h
  | case4 sections part pending parts hparts hnil ih =>
    rw [cutAll_cons, hparts, ok_bind, if_neg hnil] at h
    exact ih h

/-! ## Characters -/

/-- An offset between two characters of a text, with the number of characters before it. -/
def At (text : List Char) (offset count : ℕ) : Prop :=
  count ≤ text.length ∧ offset = (encodeChars (text.take count)).length

theorem At.zero (text : List Char) : At text 0 0 := ⟨Nat.zero_le _, rfl⟩

theorem At.length (text : List Char) : At text (encodeChars text).length text.length :=
  ⟨le_refl _, by rw [List.take_length]⟩

/-- More characters take more bytes. -/
theorem At.lt {text : List Char} {a b a' b' : ℕ} (ha : At text a a') (hb : At text b b')
    (h : a < b) : a' < b' := by
  by_contra hle
  have htake : text.take a' = text.take b' ++ (text.drop b').take (a' - b') := by
    rw [← List.take_add, Nat.add_sub_cancel' (not_lt.mp hle)]
  have hlen := ha.2
  rw [htake, encodeChars_append, List.length_append, ← hb.2] at hlen
  omega

theorem At.unique {text : List Char} {a b b' : ℕ} (h : At text a b) (h' : At text a b') :
    b = b' := by
  have hne {k l : ℕ} (hk : At text a k) (hl : At text a l) : ¬ k < l := by
    intro hlt
    have htake : text.take l = text.take k ++ (text.drop k).take (l - k) := by
      rw [← List.take_add, Nat.add_sub_cancel' hlt.le]
    have hmore : (text.drop k).take (l - k) ≠ [] := by
      intro hnil
      have hlength := congrArg List.length hnil
      rw [List.length_take, List.length_drop, List.length_nil] at hlength
      have hle := hl.1
      omega
    have hpos := length_encodeChars_pos hmore
    have hlen := hl.2
    rw [htake, encodeChars_append, List.length_append, ← hk.2] at hlen
    omega
  have hle := hne h h'
  have hge := hne h' h
  omega

theorem At.le {text : List Char} {a b a' b' : ℕ} (ha : At text a a') (hb : At text b b')
    (h : a ≤ b) : a' ≤ b' := by
  rcases h.eq_or_lt with rfl | h
  · exact (ha.unique hb).le
  · exact (ha.lt hb h).le

/-- The bytes before an offset are those of the characters before it. -/
theorem At.take_eq {text : List Char} {offset count : ℕ} (h : At text offset count) :
    (encodeChars text).take offset = encodeChars (text.take count) := by
  have hall : encodeChars text =
      encodeChars (text.take count) ++ encodeChars (text.drop count) := by
    rw [← encodeChars_append, List.take_append_drop]
  rw [hall, List.take_left' h.2.symm]

theorem At.le_length {text : List Char} {offset count : ℕ} (h : At text offset count) :
    offset ≤ (encodeChars text).length := by
  have hlength := congrArg List.length h.take_eq
  rw [List.length_take, ← h.2] at hlength
  omega

/-- The bytes between two characters can be decoded. -/
theorem At.decode_eq {text : List Char} {previous count offset next : ℕ}
    (h : At text previous count) (h' : At text offset next) (hle : previous ≤ offset) :
    decode (((encodeChars text).take offset).drop previous) =
      some ((text.take next).drop count) := by
  have hsplit : encodeChars (text.take next) =
      encodeChars (text.take count) ++ encodeChars ((text.take next).drop count) := by
    rw [← encodeChars_append]
    nth_rewrite 1 [← List.take_append_drop count (text.take next)]
    rw [List.take_take, min_eq_left (h.le h' hle)]
  rw [h'.take_eq, hsplit, List.drop_left' h.2.symm, decode_encodeChars]

/-- The bytes between two offsets which begins between characters, as characters. -/
theorem At.next {text next : List Char} {previous count offset : ℕ} (h : At text previous count)
    (hle : previous ≤ offset)
    (hdecode : decode (((encodeChars text).take offset).drop previous) = some next)
    (hoffset : offset ≤ (encodeChars text).length) : At text offset (count + next.length) := by
  have hbefore := h.take_eq.symm
  have hbytes : encodeChars (text.take count ++ next) = (encodeChars text).take offset := by
    rw [encodeChars_append, encodeChars_decode hdecode, hbefore]
    nth_rewrite 2 [← List.take_append_drop previous ((encodeChars text).take offset)]
    rw [List.take_take, min_eq_left hle]
  have htake : text.take count ++ next = text.take (count + next.length) := by
    have hlength : (text.take count ++ next).length = count + next.length := by
      rw [List.length_append, List.length_take, min_eq_left h.1]
    have hrest : encodeChars (text.take count ++ next) ++ (encodeChars text).drop offset =
        encodeChars text := by
      rw [hbytes, List.take_append_drop]
    rw [← hlength]
    exact eq_take_of_encodeChars hrest
  constructor
  · have hle' := congrArg List.length htake
    rw [List.length_append, List.length_take, List.length_take] at hle'
    have hcount := h.1
    omega
  · rw [← htake, hbytes, List.length_take, min_eq_left hoffset]

/-- The offsets are those of characters, and the numbers are those of the characters before. -/
theorem countCharacters_spec {text : List Char} {previous count : ℕ} {offsets : List ℕ}
    {characters : List (ℕ × ℕ)} (h : At text previous count)
    (hsorted : offsets.Pairwise (· ≤ ·))
    (hbounds : ∀ offset ∈ offsets, previous ≤ offset ∧ offset ≤ (encodeChars text).length)
    (hcount : countCharacters (encodeChars text) previous count offsets = .ok characters) :
    characters.map Prod.fst = offsets ∧ ∀ entry ∈ characters, At text entry.1 entry.2 := by
  induction offsets generalizing previous count characters with
  | nil =>
    obtain rfl := Except.ok.inj hcount
    exact ⟨rfl, fun _ h => (nomatch h)⟩
  | cons offset offsets ih =>
    rw [countCharacters] at hcount
    split at hcount
    · cases hcount
    · rename_i next hdecode
      obtain ⟨rest, hrest, hcount⟩ := bind_eq_ok.mp hcount
      obtain rfl := Except.ok.inj hcount
      obtain ⟨hle, hlength⟩ := hbounds offset List.mem_cons_self
      have hnext := h.next hle hdecode hlength
      obtain ⟨hmore, htail⟩ := List.pairwise_cons.mp hsorted
      obtain ⟨hkeys, hall⟩ := ih hnext htail
        (fun o ho => ⟨hmore o ho, (hbounds o (List.mem_cons_of_mem _ ho)).2⟩) hrest
      refine ⟨congrArg (offset :: ·) hkeys, fun entry hentry => ?_⟩
      rcases List.mem_cons.mp hentry with rfl | hentry
      · exact hnext
      · exact hall entry hentry

theorem countCharacters_error {source : List UInt8} {previous count : ℕ} {offsets : List ℕ}
    {error : PyError} (h : countCharacters source previous count offsets = .error error) :
    isValueError error := by
  induction offsets generalizing previous count with
  | nil => cases h
  | cons offset offsets ih =>
    rw [countCharacters] at h
    split at h
    · obtain rfl := Except.error.inj h
      rfl
    · rename_i next hdecode
      cases hrest : countCharacters source offset (count + next.length) offsets with
      | error error' =>
        rw [hrest, error_bind] at h
        obtain rfl := Except.error.inj h
        exact ih hrest
      | ok rest =>
        rw [hrest, ok_bind] at h
        cases h

/-- Offsets of characters can be counted. -/
theorem countCharacters_of_at {text : List Char} {previous count : ℕ} {offsets : List ℕ}
    (h : At text previous count) (hsorted : offsets.Pairwise (· ≤ ·))
    (hbounds : ∀ offset ∈ offsets, previous ≤ offset ∧ ∃ n, At text offset n) :
    ∃ characters, countCharacters (encodeChars text) previous count offsets = .ok characters := by
  induction offsets generalizing previous count with
  | nil => exact ⟨[], rfl⟩
  | cons offset offsets ih =>
    obtain ⟨hle, next, hnext⟩ := hbounds offset List.mem_cons_self
    have hdecode := h.decode_eq hnext hle
    obtain ⟨hmore, htail⟩ := List.pairwise_cons.mp hsorted
    obtain ⟨rest, hrest⟩ := ih (h.next hle hdecode hnext.le_length) htail
      fun o ho => ⟨hmore o ho, (hbounds o (List.mem_cons_of_mem _ ho)).2⟩
    rw [countCharacters, hdecode]
    exact ⟨_, by dsimp only; rw [hrest, ok_bind]; rfl⟩

/-- Each offset that was counted is found. -/
theorem characterAt_spec {text : List Char} {characters : List (ℕ × ℕ)} {offset : ℕ}
    (hall : ∀ entry ∈ characters, At text entry.1 entry.2)
    (hmem : offset ∈ characters.map Prod.fst) :
    ∃ count, characterAt characters offset = .ok count ∧ At text offset count := by
  induction characters with
  | nil => cases hmem
  | cons entry characters ih =>
    obtain ⟨key, count⟩ := entry
    obtain ⟨hentry, hrest⟩ := List.forall_mem_cons.mp hall
    by_cases hkey : offset = key
    · subst hkey
      refine ⟨count, ?_, hentry⟩
      rw [characterAt, List.lookup_cons_self]
    · have hmem' : offset ∈ characters.map Prod.fst := (List.mem_cons.mp hmem).resolve_left hkey
      obtain ⟨count', hcount, hat⟩ := ih hrest hmem'
      refine ⟨count', ?_, hat⟩
      rw [characterAt, List.lookup_cons, beq_eq_false_iff_ne.mpr hkey]
      exact hcount

/-! ## The partition -/

theorem mem_offsets {sections : List Piece} {offset : ℕ} :
    offset ∈ offsets sections ↔ ∃ s ∈ sections, offset = s.start ∨ offset = s.stop := by
  rw [offsets, List.mem_insertionSort, List.mem_dedup, List.mem_flatMap]
  simp only [List.mem_cons, List.not_mem_nil, or_false]

theorem offsets_sorted (sections : List Piece) : (offsets sections).Pairwise (· ≤ ·) :=
  List.pairwise_insertionSort _ _

/-- A section in bytes and the same section in characters. -/
structure Located (text : List Char) (bytes piece : Piece) : Prop where
  start : At text bytes.start piece.start
  stop : At text bytes.stop piece.stop
  heading : piece.heading = bytes.heading

theorem inCharacters_spec {text : List Char} {characters : List (ℕ × ℕ)} {bytes : Piece}
    (hall : ∀ entry ∈ characters, At text entry.1 entry.2)
    (hstart : bytes.start ∈ characters.map Prod.fst)
    (hstop : bytes.stop ∈ characters.map Prod.fst) :
    ∃ piece, inCharacters characters bytes = .ok piece ∧ Located text bytes piece := by
  obtain ⟨start, hs, hstart⟩ := characterAt_spec hall hstart
  obtain ⟨stop, ht, hstop⟩ := characterAt_spec hall hstop
  refine ⟨⟨start, stop, bytes.heading⟩, ?_, hstart, hstop, rfl⟩
  rw [inCharacters, hs, ok_bind, ht]
  rfl

theorem located_of_mapM {text : List Char} {characters : List (ℕ × ℕ)}
    {sections pieces : List Piece}
    (hall : ∀ bytes ∈ sections, ∃ piece,
      inCharacters characters bytes = .ok piece ∧ Located text bytes piece)
    (h : List.Forall₂ (fun bytes piece => inCharacters characters bytes = .ok piece)
      sections pieces) : List.Forall₂ (Located text) sections pieces := by
  induction h with
  | nil => exact .nil
  | cons hpiece _ ih =>
    obtain ⟨⟨piece, hok, hlocated⟩, hrest⟩ := List.forall_mem_cons.mp hall
    rw [hpiece] at hok
    obtain rfl := Except.ok.inj hok
    exact .cons hlocated (ih hrest)

/-- Pieces that cover a text exactly, each with the heading of the deepest symbol around it. -/
structure Exact (text : List Char) (symbols : List Symbol) (pieces : List Piece) : Prop where
  ordered : pieces.Pairwise fun a b => a.stop ≤ b.start
  nonempty : ∀ piece ∈ pieces, piece.start < piece.stop
  covers : ∀ i, i < text.length ↔ ∃ piece ∈ pieces, piece.start ≤ i ∧ i < piece.stop
  labelled : ∀ piece ∈ pieces, ∃ start stop, At text start piece.start ∧
    At text stop piece.stop ∧ Labelled symbols start stop "" piece.heading

theorem exact_of_located {text : List Char} {symbols : List Symbol} {pieces : List Piece}
    (hfits : Fits 0 (encodeChars text).length symbols)
    (hpieces : List.Forall₂ (Located text) (cover "" 0 (encodeChars text).length symbols) pieces) :
    Exact text symbols pieces := by
  have htiles : Covers 0 pieces text.length := by
    apply (hfits.covers "").map (r := At text) (.zero text) (.length text)
      (fun _ _ _ => At.unique) (fun _ _ _ _ => At.lt)
    exact hpieces.imp fun _ _ h => ⟨h.start, h.stop⟩
  refine ⟨htiles.pairwise, fun piece hp => (htiles.bounds hp).2.1, fun i => ⟨fun hi => ?_, ?_⟩,
    fun piece hp => ?_⟩
  · exact htiles.covers (Nat.zero_le i) hi
  · rintro ⟨piece, hp, -, hlt⟩
    have hbounds := htiles.bounds hp
    omega
  · obtain ⟨bytes, hmem, hlocated⟩ := Sequence.mem_of_forall₂ hpieces.flip hp
    refine ⟨bytes.start, bytes.stop, hlocated.start, hlocated.stop, ?_⟩
    rw [hlocated.heading]
    exact hfits.labelled hmem

/-- Symbols that are nested in order, each bounded by characters of the text. -/
structure Placed (text : List Char) (symbols : List Symbol) : Prop where
  fits : Fits 0 (encodeChars text).length symbols
  bounded : ∀ depth symbol, InForest symbols depth symbol →
    (∃ n, At text symbol.start n) ∧ ∃ n, At text symbol.stop n

/-- The offsets of the sections are offsets of characters exactly if those of the symbols are. -/
theorem offsets_at_iff {text : List Char} {symbols : List Symbol}
    (hfits : Fits 0 (encodeChars text).length symbols) :
    (∀ offset ∈ offsets (cover "" 0 (encodeChars text).length symbols), ∃ n, At text offset n) ↔
      Placed text symbols := by
  constructor
  · intro hall
    refine ⟨hfits, fun depth symbol hin => ?_⟩
    obtain ⟨⟨first, hfirst, heq⟩, last, hlast, heq'⟩ := hfits.exists_bounds hin
    rw [← heq, ← heq']
    exact ⟨hall _ (mem_offsets.mpr ⟨first, hfirst, .inl rfl⟩),
      hall _ (mem_offsets.mpr ⟨last, hlast, .inr rfl⟩)⟩
  · intro hplaced offset ho
    obtain ⟨bytes, hmem, hoffset⟩ := mem_offsets.mp ho
    obtain ⟨hstart, hstop⟩ := hfits.forall_bounds (P := fun offset => ∃ n, At text offset n)
      ⟨0, .zero text⟩ ⟨text.length, .length text⟩ hplaced.bounded hmem
    rcases hoffset with rfl | rfl
    · exact hstart
    · exact hstop

/-- The sections of a source are found exactly where its symbols are placed in it, and then they
are exact. -/
theorem partition_exact (text : List Char) (symbols : List Symbol) :
    match partition (encodeChars text) symbols with
    | .ok pieces => Placed text symbols ∧ Exact text symbols pieces
    | .error error => isValueError error = true ∧ ¬ Placed text symbols := by
  cases hcut : cutAll [⟨⟨0, (encodeChars text).length, ""⟩, symbols⟩] [] with
  | error error =>
    rw [partition, hcut]
    refine ⟨cutAll_error hcut, fun hplaced => ?_⟩
    have htop : ∀ part ∈ [(⟨⟨0, (encodeChars text).length, ""⟩, symbols⟩ : Part)], part.Fits :=
      List.forall_mem_singleton.mpr hplaced.fits
    obtain ⟨sections, hok⟩ := @cutAll_of_fits _ [] htop
    rw [hcut] at hok
    cases hok
  | ok sections =>
    obtain ⟨hfits, hsections⟩ := cutAll_ok (List.forall_mem_singleton.mpr (Nat.zero_le _)) hcut
    have htop : Fits 0 (encodeChars text).length symbols := hfits _ List.mem_cons_self
    obtain rfl : sections = cover "" 0 (encodeChars text).length symbols := by
      rw [hsections, List.nil_append, List.flatMap_singleton]
      rfl
    cases hcount : countCharacters (encodeChars text) 0 0
        (offsets (cover "" 0 (encodeChars text).length symbols)) with
    | error error =>
      rw [partition, hcut, ok_bind, hcount]
      refine ⟨countCharacters_error hcount, fun hplaced => ?_⟩
      obtain ⟨characters, hok⟩ := countCharacters_of_at (.zero text) (offsets_sorted _)
        fun offset ho => ⟨Nat.zero_le _, (offsets_at_iff htop).mpr hplaced offset ho⟩
      rw [hcount] at hok
      cases hok
    | ok characters =>
      have hbounds : ∀ offset ∈ offsets (cover "" 0 (encodeChars text).length symbols),
          0 ≤ offset ∧ offset ≤ (encodeChars text).length := by
        intro offset ho
        obtain ⟨bytes, hmem, hoffset⟩ := mem_offsets.mp ho
        have hbounds := (htop.covers "").bounds hmem
        omega
      obtain ⟨hkeys, hall⟩ := countCharacters_spec (.zero text) (offsets_sorted _) hbounds hcount
      have hplaced : Placed text symbols := by
        refine (offsets_at_iff htop).mp fun offset ho => ?_
        rw [← hkeys] at ho
        obtain ⟨entry, hentry, rfl⟩ := List.mem_map.mp ho
        exact ⟨entry.2, hall entry hentry⟩
      have hpiece : ∀ bytes ∈ cover "" 0 (encodeChars text).length symbols,
          ∃ piece, inCharacters characters bytes = .ok piece ∧ Located text bytes piece := by
        intro bytes hmem
        apply inCharacters_spec hall
        · rw [hkeys]
          exact mem_offsets.mpr ⟨bytes, hmem, .inl rfl⟩
        · rw [hkeys]
          exact mem_offsets.mpr ⟨bytes, hmem, .inr rfl⟩
      obtain ⟨pieces, hpieces⟩ :=
        exists_mapM_ok fun bytes hmem => (hpiece bytes hmem).imp fun _ h => h.1
      rw [partition, hcut, ok_bind, hcount, ok_bind, hpieces]
      exact ⟨hplaced, exact_of_located htop (located_of_mapM hpiece (mapM_eq_ok.mp hpieces))⟩

/-- A function inside a class, among characters of two and of three bytes. -/
example : (partition (encodeChars "é=1\n类:\n é()\nx".toList)
    [.mk 5 15 "类" [.mk 10 15 "类 > é" []]]).toOption =
      some [⟨0, 4, ""⟩, ⟨4, 7, "类"⟩, ⟨7, 11, "类 > é"⟩, ⟨11, 13, ""⟩] := by decide +kernel

end CodeStructure

end Eventide
