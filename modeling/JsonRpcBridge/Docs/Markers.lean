import JsonRpcBridge.Docs.Text

/-!
# Code markers

What of a text is a marker and what is its author's: `@code`, with an attribute if it has one, and
the `@endcode` that matches it are markers, all else is kept. `description` passes over whatever
stands in braces after `@code`. `shown_eq_iff`: the two agree on a text if and only if braces hold
nothing but attributes.

The comparison is between two scans of one text that differ in how much they pass over after
`@code` (`attributeLength`, `bracesLength`). Once they have passed over different stretches they
are at different positions, and may disagree for a while on whether they are in code. What settles
the matter is a count: braces that are passed over and are no attribute take a `{` with them, and
the greedy scan never gets one back that the other lacks.
-/

namespace JsonRpcBridge.Docs

/-! ## Definitions

A scan cuts a text into pieces: characters, and the markers between which code stands. It is a
loop with fuel, one round for each position; how much belongs to an `@code` is a parameter, so
that one definition gives both scans. -/

inductive Piece where
  | text (c : UInt8)
  /-- `@code`, and the text after it. -/
  | opening (after : Bytes)
  | closing

def Piece.text? : Piece → Option UInt8
  | .text c => some c
  | _ => none

/-- The pieces of `s` from position `i`; `skip` is how much of the text after an `@code` belongs to
it. -/
def scanLoop (skip : Bytes → Nat) (s : Bytes) : Nat → Nat → Bool → List Piece
  | 0, _, _ => []
  | fuel + 1, i, inCode =>
    match s.drop i with
    | [] => []
    | c :: _ =>
      if !inCode && keywordAt s i kCode then
        .opening (s.drop (i + 5)) ::
          scanLoop skip s fuel (i + 5 + skip (s.drop (i + 5))) true
      else if inCode && keywordAt s i kEndcode then
        .closing :: scanLoop skip s fuel (i + 8) false
      else .text c :: scanLoop skip s fuel (i + 1) inCode

/-- What stands in braces at the head of a text. -/
def braces : Bytes → Option Bytes
  | 0x7B :: rest => (find 0x7D rest).map rest.take
  | _ => none

/-- Word characters, `+` and `-`, after a dot or not. -/
def isAttribute (braced : Bytes) : Bool :=
  (if braced.head? == some 0x2E then braced.drop 1 else braced).all fun c =>
    isWordChar c || c == 0x2B || c == 0x2D

/-- The length of an attribute in its braces. -/
def attributeLength (after : Bytes) : Nat :=
  match braces after with
  | some braced => if isAttribute braced then braced.length + 2 else 0
  | none => 0

/-- The length of anything in braces. -/
def bracesLength (after : Bytes) : Nat :=
  match braces after with
  | some braced => braced.length + 2
  | none => 0

/-- The pieces of a text. -/
def pieces (s : Bytes) : List Piece := scanLoop attributeLength s s.length 0 false

def nonblank (s : Bytes) : Bytes := s.filter fun c => !isBlank c

/-- The text of pieces, without blanks. -/
def shown (ps : List Piece) : Bytes := nonblank (ps.filterMap Piece.text?)

/-! ## One piece

The scan as equations, one for each kind of piece, with the fuel out of the way (`scan`). Every
lemma below reads off one step. -/

theorem shown_text (c : UInt8) (ps : List Piece) :
    shown (.text c :: ps) = nonblank [c] ++ shown ps := by
  rw [shown, List.filterMap_cons_some (by rfl), ← List.singleton_append, nonblank,
    List.filter_append]
  rfl

theorem shown_opening (after : Bytes) (ps : List Piece) :
    shown (.opening after :: ps) = shown ps := rfl

theorem shown_closing (ps : List Piece) : shown (.closing :: ps) = shown ps := rfl

theorem nonblank_append (s t : Bytes) : nonblank (s ++ t) = nonblank s ++ nonblank t :=
  List.filter_append _ _

theorem shown_texts (l : Bytes) (ps : List Piece) :
    shown (l.map Piece.text ++ ps) = nonblank l ++ shown ps := by
  induction l with
  | nil => rfl
  | cons c l ih =>
    rw [List.map_cons, List.cons_append, shown_text, ih, ← List.append_assoc, ← nonblank_append]
    rfl

/-- From position `i` to the end. -/
def scan (skip : Bytes → Nat) (s : Bytes) (i : Nat) (inCode : Bool) : List Piece :=
  scanLoop skip s (s.length - i) i inCode

section

variable {skip : Bytes → Nat} {s : Bytes} {i : Nat} {inCode : Bool}

theorem scanLoop_end (fuel : Nat) (hi : s.length ≤ i) : scanLoop skip s fuel i inCode = [] := by
  cases fuel with
  | zero => rfl
  | succ fuel =>
    rw [scanLoop, List.drop_eq_nil_of_le hi]

/-! ### Without the fuel -/

/-- Rounds beyond the length of the text do nothing. -/
theorem scanLoop_fuel (fuel n : Nat) (hfuel : s.length - i ≤ fuel) (hn : s.length - i ≤ n) :
    scanLoop skip s fuel i inCode = scanLoop skip s n i inCode := by
  induction fuel generalizing i inCode n with
  | zero => rw [scanLoop_end 0 (by omega), scanLoop_end n (by omega)]
  | succ fuel ih =>
    cases n with
    | zero => rw [scanLoop_end _ (by omega), scanLoop_end 0 (by omega)]
    | succ n =>
      rw [scanLoop, scanLoop]
      split
      · rfl
      · rename_i c rest hdrop
        have hi : i < s.length := by
          by_contra hge
          rw [List.drop_eq_nil_of_le (by omega)] at hdrop
          cases hdrop
        rw [ih n (by omega) (by omega), ih n (by omega) (by omega), ih n (by omega) (by omega)]

/-- Nothing is left at the end. -/
theorem scan_end (hi : s.length ≤ i) : scan skip s i inCode = [] := scanLoop_end _ hi

/-- A keyword at a position is a prefix of what is left there. -/
theorem drop_keyword {kw : Bytes} (h : keywordAt s i kw = true) :
    s.drop i = kw ++ s.drop (i + kw.length) := by
  simp only [keywordAt, Bool.and_eq_true, beq_iff_eq] at h
  conv_lhs => rw [← List.take_append_drop kw.length (s.drop i), h.1.1, List.drop_drop]

theorem lt_of_drop {c : UInt8} {rest : Bytes} (h : s.drop i = c :: rest) : i < s.length := by
  by_contra hge
  rw [List.drop_eq_nil_of_le (Nat.le_of_not_lt hge)] at h
  cases h

theorem drop_succ {c : UInt8} {rest : Bytes} (h : s.drop i = c :: rest) :
    s.drop (i + 1) = rest := by
  rw [← List.drop_drop, h]
  rfl

/-- A keyword begins with `@`. -/
theorem head_of_keyword {kw : Bytes} {c : UInt8} {rest : Bytes} (h : keywordAt s i kw = true)
    (hkw : kw.head? = some 0x40) (hdrop : s.drop i = c :: rest) : c = 0x40 := by
  rw [drop_keyword h] at hdrop
  cases kw with
  | nil => cases hkw
  | cons x kw =>
    obtain rfl := Option.some.inj hkw
    exact (List.cons_eq_cons.mp hdrop).1.symm

theorem lt_of_keyword {kw : Bytes} (h : keywordAt s i kw = true) (hkw : kw ≠ []) :
    i < s.length := by
  have hdrop := drop_keyword h
  cases kw with
  | nil => exact absurd rfl hkw
  | cons x kw => exact lt_of_drop hdrop

/-- One round, at a position in the text. -/
theorem scan_eq (hi : i < s.length) :
    scan skip s i inCode =
      if !inCode && keywordAt s i kCode then
        .opening (s.drop (i + 5)) :: scan skip s (i + 5 + skip (s.drop (i + 5))) true
      else if inCode && keywordAt s i kEndcode then .closing :: scan skip s (i + 8) false
      else .text s[i] :: scan skip s (i + 1) inCode := by
  rw [scan, show s.length - i = s.length - i - 1 + 1 by omega, scanLoop,
    List.drop_eq_getElem_cons hi]
  have hrest : ∀ j inCode, i + 1 ≤ j →
      scanLoop skip s (s.length - i - 1) j inCode = scan skip s j inCode := by
    intro j inCode hj
    exact scanLoop_fuel _ _ (by omega) (Nat.le_refl _)
  dsimp only
  rw [hrest _ _ (by omega), hrest _ _ (by omega), hrest _ _ (by omega)]

/-! ### The equations -/

theorem scan_opening (h : keywordAt s i kCode = true) :
    scan skip s i false =
      .opening (s.drop (i + 5)) :: scan skip s (i + 5 + skip (s.drop (i + 5))) true := by
  rw [scan_eq (lt_of_keyword h (by decide)), h]
  rfl

theorem scan_closing (h : keywordAt s i kEndcode = true) :
    scan skip s i true = .closing :: scan skip s (i + 8) false := by
  rw [scan_eq (lt_of_keyword h (by decide)), h]
  rfl

/-- No marker begins at `i`. -/
def Plain (s : Bytes) (i : Nat) (inCode : Bool) : Prop :=
  keywordAt s i (if inCode then kEndcode else kCode) = false

/-- Where no marker begins, the character is text. -/
theorem scan_plain {c : UInt8} {rest : Bytes} (hdrop : s.drop i = c :: rest)
    (h : Plain s i inCode) :
    scan skip s i inCode = .text c :: scan skip s (i + 1) inCode := by
  have hi := lt_of_drop hdrop
  have hc : s[i] = c := by
    rw [List.drop_eq_getElem_cons hi] at hdrop
    exact (List.cons_eq_cons.mp hdrop).1
  rw [scan_eq hi, hc]
  cases inCode with
  | true =>
    have h : keywordAt s i kEndcode = false := h
    rw [h]
    rfl
  | false =>
    have h : keywordAt s i kCode = false := h
    rw [h]
    rfl

/-- Both keywords begin with `@`. -/
theorem plain_of_ne {c : UInt8} {rest : Bytes} (hdrop : s.drop i = c :: rest) (hc : c ≠ 0x40)
    (inCode : Bool) : Plain s i inCode := by
  rw [Plain, ← Bool.not_eq_true]
  intro h
  cases inCode with
  | true => exact hc (head_of_keyword h (by decide) hdrop)
  | false => exact hc (head_of_keyword h (by decide) hdrop)

/-- Text without `@` is kept as it is. -/
theorem scan_text {l rest : Bytes} (hdrop : s.drop i = l ++ rest) (hl : 0x40 ∉ l) :
    scan skip s i inCode = l.map Piece.text ++ scan skip s (i + l.length) inCode := by
  induction l generalizing i with
  | nil => rfl
  | cons c l ih =>
    obtain ⟨hc, hl⟩ := not_or.mp (mt List.mem_cons.mpr hl)
    rw [List.cons_append] at hdrop
    rw [scan_plain hdrop (plain_of_ne hdrop (Ne.symm hc) inCode), ih (drop_succ hdrop) hl,
      List.map_cons, List.cons_append, List.length_cons, Nat.add_right_comm, Nat.add_assoc]

end

/-! ## Two scans of one text

What matters of a scan is the text it keeps, without blanks, since `description` moves those. The
equations of `scan` carry over. The key lemma is `kept_through`: the careful scan, started at
some braces, comes to their end, with everything in between accounted for. -/

/-- The text of the pieces from position `i` on, without blanks. -/
def kept (skip : Bytes → Nat) (s : Bytes) (i : Nat) (inCode : Bool) : Bytes :=
  shown (scan skip s i inCode)

section

variable {skip : Bytes → Nat} {s : Bytes} {i : Nat} {inCode : Bool}

/-- Nothing is kept beyond the end. -/
theorem kept_end (hi : s.length ≤ i) : kept skip s i inCode = [] := by
  rw [kept, scan_end hi]
  rfl

theorem kept_opening (h : keywordAt s i kCode = true) :
    kept skip s i false = kept skip s (i + 5 + skip (s.drop (i + 5))) true := by
  rw [kept, scan_opening h, shown_opening]
  rfl

theorem kept_closing (h : keywordAt s i kEndcode = true) :
    kept skip s i true = kept skip s (i + 8) false := by
  rw [kept, scan_closing h, shown_closing]
  rfl

theorem kept_plain {c : UInt8} {rest : Bytes} (hdrop : s.drop i = c :: rest)
    (h : Plain s i inCode) :
    kept skip s i inCode = nonblank [c] ++ kept skip s (i + 1) inCode := by
  rw [kept, scan_plain hdrop h, shown_text]
  rfl

theorem kept_text {l rest : Bytes} (hdrop : s.drop i = l ++ rest) (hl : 0x40 ∉ l) :
    kept skip s i inCode = nonblank l ++ kept skip s (i + l.length) inCode := by
  rw [kept, scan_text hdrop hl, shown_texts]
  rfl

end

/-! ### Braces

An attribute holds no marker, and what is not an attribute may hold one: this is where the two
scans part. -/

/-- Two ways to reach the first `x` of a text. -/
theorem append_cons_inj {x : UInt8} {u v rest rest' : Bytes} (hu : x ∉ u) (hv : x ∉ v)
    (h : u ++ x :: rest = v ++ x :: rest') : u = v ∧ rest = rest' := by
  induction u generalizing v with
  | nil =>
    cases v with
    | nil => exact ⟨rfl, (List.cons_eq_cons.mp h).2⟩
    | cons y v => exact absurd ((List.cons_eq_cons.mp h).1 ▸ List.mem_cons_self) hv
  | cons a u ih =>
    cases v with
    | nil => exact absurd ((List.cons_eq_cons.mp h).1 ▸ List.mem_cons_self) hu
    | cons y v =>
      obtain ⟨hhead, htail⟩ := List.cons_eq_cons.mp h
      obtain ⟨rfl, hrest⟩ := ih (fun hm => hu (List.mem_cons_of_mem _ hm))
        (fun hm => hv (List.mem_cons_of_mem _ hm)) htail
      exact ⟨congrArg (· :: u) hhead, hrest⟩

/-- What precedes the first `x` begins with all of a word that has no `x`. -/
theorem append_of_append_cons {x : UInt8} {w t u rest : Bytes} (hw : x ∉ w)
    (h : w ++ t = u ++ x :: rest) : ∃ u', u = w ++ u' ∧ t = u' ++ x :: rest := by
  rcases List.append_eq_append_iff.mp h with ⟨a, rfl, ht⟩ | ⟨a, rfl, ht⟩
  · exact ⟨a, rfl, ht⟩
  · cases a with
    | nil => exact ⟨[], by simp, by simpa using ht.symm⟩
    | cons y a =>
      obtain ⟨rfl, -⟩ := List.cons_eq_cons.mp ht
      exact absurd (List.mem_append_right _ List.mem_cons_self) hw

theorem braces_eq_some {after braced : Bytes} (h : braces after = some braced) :
    ∃ rest, after = 0x7B :: (braced ++ 0x7D :: rest) ∧ 0x7D ∉ braced := by
  rw [braces.eq_def] at h
  split at h
  · rename_i rest
    obtain ⟨n, hfind, rfl⟩ := Option.map_eq_some_iff.mp h
    obtain ⟨hn, hget, hbefore⟩ := List.findIdx?_eq_some_iff_getElem.mp hfind
    refine ⟨rest.drop (n + 1), ?_, ?_⟩
    · rw [← beq_iff_eq.mp hget, ← List.drop_eq_getElem_cons hn, List.take_append_drop]
    · intro hmem
      obtain ⟨k, hk, hkget⟩ := List.mem_iff_getElem.mp hmem
      rw [List.length_take] at hk
      rw [List.getElem_take] at hkget
      exact hbefore k (by omega) (beq_iff_eq.mpr hkget)
  · cases h

/-- An attribute holds neither an `@`, nor a brace, nor a blank. -/
theorem attribute_chars {braced : Bytes} (h : isAttribute braced = true) :
    ∀ c ∈ braced, c ≠ 0x40 ∧ c ≠ 0x7B ∧ isBlank c = false := by
  have hbyte : ∀ n : Fin 256, UInt8.ofFin n = 0x2E ∨ (isWordChar (UInt8.ofFin n) ||
      UInt8.ofFin n == 0x2B || UInt8.ofFin n == 0x2D) = true →
      UInt8.ofFin n ≠ 0x40 ∧ UInt8.ofFin n ≠ 0x7B ∧ isBlank (UInt8.ofFin n) = false := by
    decide +kernel
  intro c hc
  apply hbyte c.toFin
  rw [isAttribute, List.all_eq_true] at h
  split at h
  · rename_i hdot
    cases braced with
    | nil => cases hc
    | cons x braced =>
      rcases List.mem_cons.mp hc with rfl | hc
      · exact Or.inl (Option.some.inj (beq_iff_eq.mp hdot))
      · exact Or.inr (h c hc)
  · exact Or.inr (h c hc)

/-- The scan of the author's text comes to the end of braces, in code or past it. -/
theorem kept_through {s u rest : Bytes} {i : Nat} (inCode : Bool)
    (hdrop : s.drop i = u ++ 0x7D :: rest) (hu : 0x7D ∉ u) :
    ∃ w inCode', kept attributeLength s i inCode =
        w ++ kept attributeLength s (i + u.length + 1) inCode' ∧
      (inCode' = false → ∃ v, w = v ++ [0x7D]) := by
  -- on what is left of the braces; each step takes off a character or a keyword
  induction hn : u.length using Nat.strongRecOn generalizing u i inCode with
  | _ n ih =>
    by_cases hplain : Plain s i inCode
    · cases u with
      | nil =>
        refine ⟨[0x7D], inCode, ?_, fun _ => ⟨[], rfl⟩⟩
        rw [kept_plain hdrop hplain, ← hn]
        rfl
      | cons c u =>
        have hu' : 0x7D ∉ u := fun hm => hu (List.mem_cons_of_mem _ hm)
        rw [List.length_cons] at hn
        obtain ⟨w, inCode', hkept, hend⟩ :=
          ih u.length (by omega) inCode (drop_succ hdrop) hu' rfl
        refine ⟨nonblank [c] ++ w, inCode', ?_, ?_⟩
        · rw [kept_plain hdrop hplain, hkept, List.append_assoc, ← hn]
          congr 3
          omega
        · intro hout
          obtain ⟨v, rfl⟩ := hend hout
          exact ⟨nonblank [c] ++ v, (List.append_assoc _ _ _).symm⟩
    · rw [Plain, Bool.not_eq_false] at hplain
      cases inCode with
      -- an `@endcode` in the braces ends the code that the scan was in
      | true =>
        have hkey : keywordAt s i kEndcode = true := hplain
        obtain ⟨u', rfl, hdrop'⟩ :=
          append_of_append_cons (w := kEndcode) (by decide) ((drop_keyword hkey).symm.trans hdrop)
        rw [List.length_append, show kEndcode.length = 8 from rfl] at hn
        obtain ⟨w, inCode', hkept, hend⟩ := ih u'.length (by omega) (i := i + 8)
          false hdrop' (fun hm => hu (List.mem_append_right _ hm)) rfl
        refine ⟨w, inCode', ?_, hend⟩
        rw [kept_closing hkey, hkept, ← hn]
        congr 2
        omega
      -- an `@code` in the braces: the scan is in code from there on
      | false =>
        have hkey : keywordAt s i kCode = true := hplain
        obtain ⟨u', rfl, hdrop'⟩ :=
          append_of_append_cons (w := kCode) (by decide) ((drop_keyword hkey).symm.trans hdrop)
        have hu' : 0x7D ∉ u' := fun hm => hu (List.mem_append_right _ hm)
        rw [List.length_append, show kCode.length = 5 from rfl] at hn
        rw [kept_opening hkey]
        by_cases hskip : attributeLength (s.drop (i + 5)) = 0
        · rw [hskip]
          obtain ⟨w, inCode', hkept, hend⟩ :=
            ih u'.length (by omega) (i := i + 5) true hdrop' hu' rfl
          refine ⟨w, inCode', ?_, hend⟩
          rw [Nat.add_zero, hkept, ← hn]
          congr 2
          omega
        · -- the braces are those of an attribute, which the scan passes over
          refine ⟨[], true, ?_, fun h => nomatch h⟩
          rw [List.nil_append]
          congr 1
          rw [attributeLength] at hskip ⊢
          split at hskip
          · rename_i braced hbraces
            obtain ⟨rest', hafter, hbraced⟩ := braces_eq_some hbraces
            split at hskip
            · rename_i hattribute
              rw [if_pos hattribute]
              have heq := hdrop'.symm.trans hafter
              rw [← List.cons_append] at heq
              have hlength : u'.length = braced.length + 1 := by
                rw [(append_cons_inj hu' ?_ heq).1, List.length_cons]
                intro hm
                rcases List.mem_cons.mp hm with hm | hm
                · cases hm
                · exact hbraced hm
              omega
            · exact absurd rfl hskip
          · exact absurd rfl hskip

/-- The text `@code{`. -/
def kOpened : Bytes := kCode ++ [0x7B]

/-- Text in braces before a text that begins a text with a marker: the marker would begin in the
braces, and hold one. -/
theorem not_overlapping {v p x y : Bytes} (hv : 0x7B ∉ v) :
    0x7B :: (v ++ [0x7D]) ++ (p ++ x) ≠ p ++ (kOpened ++ y) := by
  induction hn : p.length using Nat.strongRecOn generalizing p with
  | _ n ih =>
    intro h
    rcases List.append_eq_append_iff.mp h with ⟨a, rfl, ha⟩ | ⟨a, hw, ha⟩
    · -- `p` begins with the braces: take them off
      apply ih a.length ?_ rfl
      · rw [List.append_assoc] at ha
        exact ha
      · rw [← hn, List.length_append, List.length_cons]
        omega
    -- the marker begins inside the braces, which hold no second `{`
    · cases p with
      | nil =>
        rw [List.nil_append] at hw
        rw [← hw] at ha
        exact absurd (List.cons_eq_cons.mp ha).1 (by decide)
      | cons c p =>
        rw [List.cons_append] at hw
        obtain ⟨rfl, htail⟩ := List.cons_eq_cons.mp hw
        rcases List.eq_nil_or_concat a with rfl | ⟨a, e, rfl⟩
        · exact absurd (List.cons_eq_cons.mp ha).1 (by decide)
        · rw [List.concat_eq_append, ← List.append_assoc] at htail
          obtain ⟨rfl, rfl⟩ := List.append_singleton_inj.mp htail
          rw [List.concat_eq_append, List.append_assoc, List.singleton_append] at ha
          obtain ⟨u, rfl, -⟩ := append_of_append_cons (w := kOpened) (by decide) ha
          apply hv
          apply List.mem_append_right
          exact List.mem_append_left _ (by decide)

/-! ## When they agree

From each position on, the scans are compared in three situations: both in code, both out of it,
and the one that passes over braces in code while the other has left it. In the first two the
greedy scan keeps at most as many braces as the careful one; in the third it may keep one more,
and then a marker stands in what it kept as text (`apart`). All three go through by induction
from the end of the text. -/

def braceCount (s : Bytes) : Nat := s.count 0x7B

/-- All braces after an `@code` from position `i` on hold an attribute. -/
def Sound (s : Bytes) (i : Nat) (inCode : Bool) : Prop :=
  ∀ after, .opening after ∈ scan attributeLength s i inCode →
    ∀ braced, braces after = some braced → isAttribute braced = true

/-- How the two scans compare from position `i` on: both in code, both out of it, or the one that
passes over braces still in code where the other has left it. -/
structure Compared (s : Bytes) (i : Nat) : Prop where
  count : ∀ inCode, braceCount (kept bracesLength s i inCode) ≤
    braceCount (kept attributeLength s i inCode)
  sound : ∀ inCode, kept bracesLength s i inCode = kept attributeLength s i inCode →
    Sound s i inCode
  count_apart : braceCount (kept bracesLength s i true) ≤
    braceCount (kept attributeLength s i false) + 1
  apart : braceCount (kept bracesLength s i true) =
      braceCount (kept attributeLength s i false) + 1 →
    ∃ p x y, kept attributeLength s i false = p ++ x ∧
      kept bracesLength s i true = p ++ (kOpened ++ y)

/-- Beyond the end both keep nothing. -/
theorem compared_end {s : Bytes} {i : Nat} (hi : s.length ≤ i) : Compared s i where
  count inCode := by rw [kept_end hi, kept_end hi]
  sound inCode _ after hmem := by
    rw [scan_end hi] at hmem
    cases hmem
  count_apart := by
    rw [kept_end hi, kept_end hi]
    exact Nat.le_succ _
  apart h := by
    rw [kept_end hi, kept_end hi] at h
    cases h

section

variable {s : Bytes} {i : Nat} (ih : ∀ j, i < j → Compared s j)
include ih

/-- A character that both keep. -/
theorem compared_plain {c : UInt8} {rest : Bytes} (hdrop : s.drop i = c :: rest) {inCode : Bool}
    (hplain : Plain s i inCode) :
    braceCount (kept bracesLength s i inCode) ≤ braceCount (kept attributeLength s i inCode) ∧
      (kept bracesLength s i inCode = kept attributeLength s i inCode → Sound s i inCode) := by
  have hnext := ih (i + 1) (Nat.lt_succ_self i)
  rw [kept_plain hdrop hplain, kept_plain hdrop hplain]
  constructor
  · rw [braceCount, braceCount, List.count_append, List.count_append]
    exact Nat.add_le_add_left (hnext.count inCode) _
  · intro heq after hmem
    rw [scan_plain hdrop hplain] at hmem
    rcases List.mem_cons.mp hmem with hmem | hmem
    · cases hmem
    · exact hnext.sound inCode (List.append_cancel_left heq) after hmem

/-- An `@endcode` that both take for a marker. -/
theorem compared_closing (hkey : keywordAt s i kEndcode = true) :
    braceCount (kept bracesLength s i true) ≤ braceCount (kept attributeLength s i true) ∧
      (kept bracesLength s i true = kept attributeLength s i true → Sound s i true) := by
  have hnext := ih (i + 8) (by omega)
  rw [kept_closing hkey, kept_closing hkey]
  refine ⟨hnext.count false, ?_⟩
  intro heq after hmem
  rw [scan_closing hkey] at hmem
  rcases List.mem_cons.mp hmem with hmem | hmem
  · cases hmem
  · exact hnext.sound false heq after hmem

/-- Nothing stands in braces, or an attribute. -/
theorem compared_opening (hkey : keywordAt s i kCode = true)
    (hbraces : ∀ braced, braces (s.drop (i + 5)) = some braced → isAttribute braced = true) :
    braceCount (kept bracesLength s i false) ≤ braceCount (kept attributeLength s i false) ∧
      (kept bracesLength s i false = kept attributeLength s i false → Sound s i false) := by
  have hskip : bracesLength (s.drop (i + 5)) = attributeLength (s.drop (i + 5)) := by
    rw [bracesLength, attributeLength]
    split
    · rename_i braced hsome
      rw [if_pos (hbraces braced hsome)]
    · rfl
  have hnext := ih (i + 5 + attributeLength (s.drop (i + 5))) (by omega)
  rw [kept_opening hkey, kept_opening hkey, hskip]
  refine ⟨hnext.count true, ?_⟩
  intro heq after hmem
  rw [scan_opening hkey] at hmem
  rcases List.mem_cons.mp hmem with hmem | hmem
  · obtain rfl := Piece.opening.inj hmem
    exact hbraces
  · exact hnext.sound true heq after hmem

/-- Something else stands in braces: it is lost. -/
theorem compared_lost (hkey : keywordAt s i kCode = true) {braced : Bytes}
    (hbraces : braces (s.drop (i + 5)) = some braced) (hlost : isAttribute braced ≠ true) :
    braceCount (kept bracesLength s i false) ≤ braceCount (kept attributeLength s i false) ∧
      kept bracesLength s i false ≠ kept attributeLength s i false := by
  obtain ⟨rest, hafter, hbraced⟩ := braces_eq_some hbraces
  -- the greedy scan passes over the braces, the careful one over nothing
  have hlong : bracesLength (s.drop (i + 5)) = braced.length + 2 := by
    rw [bracesLength, hbraces]
  have hshort : attributeLength (s.drop (i + 5)) = 0 := by
    rw [attributeLength, hbraces]
    exact if_neg hlost
  have hopen : kept attributeLength s (i + 5) true =
      [0x7B] ++ kept attributeLength s (i + 6) true :=
    kept_text (l := [0x7B]) hafter (by decide)
  obtain ⟨w, inCode', hthrough, hend⟩ :=
    kept_through true (drop_succ hafter) hbraced
  rw [kept_opening hkey, kept_opening hkey, hlong, hshort, Nat.add_zero, hopen, hthrough]
  rw [show i + 5 + 1 + braced.length + 1 = i + 5 + (braced.length + 2) by omega]
  have hnext := ih (i + 5 + (braced.length + 2)) (by omega)
  have hcount : ∀ t : Bytes, braceCount ([0x7B] ++ (w ++ t)) = 1 + (braceCount w + braceCount t) := by
    intro t
    rw [braceCount, List.count_append, List.count_append]
    rfl
  cases inCode' with
  -- the careful scan is in code behind the braces as well, and one brace ahead
  | true =>
    have hle := hnext.count true
    constructor
    · rw [hcount]
      omega
    · intro heq
      have heq := congrArg braceCount heq
      rw [hcount] at heq
      omega
  -- it has left the code: the two are apart, and the brace it is ahead by may be made up for
  | false =>
    have hle := hnext.count_apart
    obtain ⟨v, rfl⟩ := hend rfl
    constructor
    · rw [hcount]
      omega
    · intro heq
      have hsum := congrArg braceCount heq
      rw [hcount] at hsum
      have hv : braceCount v ≤ braceCount (v ++ [0x7D]) := by
        rw [braceCount, braceCount, List.count_append]
        exact Nat.le_add_right _ _
      obtain ⟨p, x, y, hauthored, hcopied⟩ := hnext.apart (by omega)
      have hnone : 0x7B ∉ v := by
        apply List.count_eq_zero.mp
        show braceCount v = 0
        omega
      rw [hauthored, hcopied] at heq
      exact not_overlapping hnone heq.symm

/-! ### In code in one scan only -/

omit ih in
/-- A keyword that is not looked for here is text. -/
theorem kept_keyword {skip : Bytes → Nat} {l rest : Bytes} {inCode : Bool}
    (hdrop : s.drop i = 0x40 :: (l ++ rest)) (hl : 0x40 ∉ l) (hplain : Plain s i inCode) :
    kept skip s i inCode =
      nonblank (0x40 :: l) ++ kept skip s (i + 1 + l.length) inCode := by
  rw [kept_plain hdrop hplain, kept_text (drop_succ hdrop) hl, ← List.append_assoc,
    ← nonblank_append]
  rfl

omit ih in
theorem plain_of_other {kw : Bytes} {inCode : Bool} (hkey : keywordAt s i kw = true)
    (hother : kw.take 2 ≠ (if inCode then kEndcode else kCode).take 2) (hkw : 2 ≤ kw.length) :
    Plain s i inCode := by
  rw [Plain, ← Bool.not_eq_true]
  intro h
  have hlength : 2 ≤ (if inCode then kEndcode else kCode).length := by
    cases inCode <;> decide
  have htake := congrArg (List.take 2) ((drop_keyword hkey).symm.trans (drop_keyword h))
  rw [List.take_append_of_le_length hkw, List.take_append_of_le_length hlength] at htake
  exact hother htake

/-- The third situation: one scan in code, the other out of it. -/
theorem compared_apart {c : UInt8} {rest : Bytes} (hdrop : s.drop i = c :: rest) :
    braceCount (kept bracesLength s i true) ≤ braceCount (kept attributeLength s i false) + 1 ∧
      (braceCount (kept bracesLength s i true) =
          braceCount (kept attributeLength s i false) + 1 →
        ∃ p x y, kept attributeLength s i false = p ++ x ∧
          kept bracesLength s i true = p ++ (kOpened ++ y)) := by
  by_cases hcode : keywordAt s i kCode = true
  -- an `@code` is text for the scan that is in code, and a marker for the other
  · have hcopied : kept bracesLength s i true = kCode ++ kept bracesLength s (i + 5) true :=
      kept_keyword (l := [0x63, 0x6F, 0x64, 0x65]) (drop_keyword hcode) (by decide)
        (plain_of_other hcode (by decide) (by decide))
    rw [hcopied, kept_opening hcode]
    by_cases hskip : attributeLength (s.drop (i + 5)) = 0
    · have hle := (ih (i + 5) (by omega)).count true
      have hcount : braceCount (kCode ++ kept bracesLength s (i + 5) true) =
          braceCount (kept bracesLength s (i + 5) true) := by
        rw [braceCount, List.count_append, show kCode.count 0x7B = 0 by decide, Nat.zero_add]
        rfl
      rw [hskip, hcount, Nat.add_zero]
      constructor
      · omega
      · intro heq
        omega
    · -- an attribute: `description` shows it as code
      rw [attributeLength] at hskip ⊢
      split at hskip
      case h_2 => exact absurd rfl hskip
      rename_i braced hbraces
      split at hskip
      case isFalse => exact absurd rfl hskip
      rename_i hattribute
      obtain ⟨after, hafter, hbraced⟩ := braces_eq_some hbraces
      have hchars := attribute_chars hattribute
      have hinner : kept bracesLength s (i + 5) true =
          0x7B :: (nonblank (braced ++ [0x7D]) ++
            kept bracesLength s (i + 5 + (braced.length + 2)) true) := by
        have hdrop' : s.drop (i + 5) = 0x7B :: (braced ++ [0x7D]) ++ after := by
          rw [hafter, List.cons_append, List.append_assoc]
          rfl
        rw [kept_text hdrop' ?_, List.length_cons, List.length_append]
        · rfl
        · intro hmem
          rcases List.mem_cons.mp hmem with hmem | hmem
          · cases hmem
          rcases List.mem_append.mp hmem with hmem | hmem
          · exact (hchars _ hmem).1 rfl
          · cases List.mem_singleton.mp hmem
      have hnone : (nonblank (braced ++ [0x7D])).count 0x7B = 0 := by
        apply List.count_eq_zero.mpr
        intro hmem
        rcases List.mem_append.mp (List.mem_filter.mp hmem).1 with hmem | hmem
        · exact (hchars _ hmem).2.1 rfl
        · cases List.mem_singleton.mp hmem
      have hle := (ih (i + 5 + (braced.length + 2)) (by omega)).count true
      have hcount : braceCount (kCode ++ kept bracesLength s (i + 5) true) =
          braceCount (kept bracesLength s (i + 5 + (braced.length + 2)) true) + 1 := by
        rw [hinner, braceCount, List.count_append, List.count_cons_self, List.count_append, hnone,
          show kCode.count 0x7B = 0 by decide, Nat.zero_add, Nat.zero_add]
        rfl
      rw [if_pos hattribute, hcount]
      refine ⟨by omega, fun _ => ⟨[], _, nonblank (braced ++ [0x7D]) ++
        kept bracesLength s (i + 5 + (braced.length + 2)) true, (List.nil_append _).symm, ?_⟩⟩
      rw [hinner]
      exact List.append_cons _ _ _
  -- an `@endcode` is a marker for the scan in code, and text for the other
  · by_cases hend : keywordAt s i kEndcode = true
    · have hauthored : kept attributeLength s i false =
          kEndcode ++ kept attributeLength s (i + 8) false :=
        kept_keyword (l := [0x65, 0x6E, 0x64, 0x63, 0x6F, 0x64, 0x65]) (drop_keyword hend)
          (by decide) (plain_of_other hend (by decide) (by decide))
      have hle := (ih (i + 8) (by omega)).count false
      have hcount : braceCount (kEndcode ++ kept attributeLength s (i + 8) false) =
          braceCount (kept attributeLength s (i + 8) false) := by
        rw [braceCount, List.count_append, show kEndcode.count 0x7B = 0 by decide, Nat.zero_add]
        rfl
      rw [hauthored, hcount, kept_closing hend]
      constructor
      · omega
      · intro heq
        omega
    · have hnext := ih (i + 1) (Nat.lt_succ_self i)
      have hin : Plain s i true := Bool.eq_false_iff.mpr hend
      have hout : Plain s i false := Bool.eq_false_iff.mpr hcode
      have hle := hnext.count_apart
      rw [kept_plain hdrop hin, kept_plain hdrop hout]
      have hcount : ∀ t : Bytes, braceCount (nonblank [c] ++ t) =
          braceCount (nonblank [c]) + braceCount t := by
        intro t
        exact List.count_append
      rw [hcount, hcount]
      constructor
      · omega
      · intro heq
        obtain ⟨p, x, y, hauthored, hcopied⟩ := hnext.apart (by omega)
        refine ⟨nonblank [c] ++ p, x, y, ?_, ?_⟩
        · rw [hauthored, List.append_assoc]
        · rw [hcopied, List.append_assoc]

end

/-- From every position on. -/
theorem compared (s : Bytes) (i : Nat) : Compared s i := by
  -- from the end of the text backwards
  induction hn : s.length - i using Nat.strongRecOn generalizing i with
  | _ n ih =>
    by_cases hi : s.length ≤ i
    · exact compared_end hi
    have hnext : ∀ j, i < j → Compared s j := by
      intro j hj
      exact ih (s.length - j) (by omega) j rfl
    have hdrop := List.drop_eq_getElem_cons (Nat.lt_of_not_le hi)
    -- both scans in code, or both out of it
    have hsame : ∀ inCode,
        braceCount (kept bracesLength s i inCode) ≤ braceCount (kept attributeLength s i inCode) ∧
          (kept bracesLength s i inCode = kept attributeLength s i inCode →
            Sound s i inCode) := by
      intro inCode
      by_cases hplain : Plain s i inCode
      · exact compared_plain hnext hdrop hplain
      rw [Plain, Bool.not_eq_false] at hplain
      cases inCode with
      | true => exact compared_closing hnext hplain
      | false =>
        by_cases hbraces : ∀ braced, braces (s.drop (i + 5)) = some braced →
            isAttribute braced = true
        · exact compared_opening hnext hplain hbraces
        · push Not at hbraces
          obtain ⟨braced, hbraces, hlost⟩ := hbraces
          obtain ⟨hle, hne⟩ := compared_lost hnext hplain hbraces hlost
          exact ⟨hle, fun heq => absurd heq hne⟩
    obtain ⟨hle, hlate⟩ := compared_apart hnext hdrop
    exact {
      count := fun inCode => (hsame inCode).1
      sound := fun inCode => (hsame inCode).2
      count_apart := hle
      apart := hlate }

/-- Where braces hold nothing but attributes, the scans are the same. -/
theorem scan_of_sound {s : Bytes} {i : Nat} {inCode : Bool} (h : Sound s i inCode) :
    scan bracesLength s i inCode = scan attributeLength s i inCode := by
  induction hn : s.length - i using Nat.strongRecOn generalizing i inCode with
  | _ n ih =>
    by_cases hi : s.length ≤ i
    · rw [scan_end hi, scan_end hi]
    have hdrop := List.drop_eq_getElem_cons (Nat.lt_of_not_le hi)
    by_cases hplain : Plain s i inCode
    · rw [Sound, scan_plain hdrop hplain] at h
      rw [scan_plain hdrop hplain, scan_plain hdrop hplain]
      rw [ih _ (by omega) (fun after hmem => h after (List.mem_cons_of_mem _ hmem)) rfl]
    rw [Plain, Bool.not_eq_false] at hplain
    cases inCode with
    | true =>
      rw [Sound, scan_closing hplain] at h
      rw [scan_closing hplain, scan_closing hplain]
      rw [ih _ (by omega) (fun after hmem => h after (List.mem_cons_of_mem _ hmem)) rfl]
    | false =>
      rw [Sound, scan_opening hplain] at h
      have hskip : bracesLength (s.drop (i + 5)) = attributeLength (s.drop (i + 5)) := by
        rw [bracesLength, attributeLength]
        split
        · rename_i braced hsome
          rw [if_pos (h _ List.mem_cons_self braced hsome)]
        · rfl
      rw [scan_opening hplain, scan_opening hplain, hskip]
      rw [ih _ (by omega) (fun after hmem => h after (List.mem_cons_of_mem _ hmem)) rfl]

theorem kept_eq_iff (s : Bytes) (i : Nat) (inCode : Bool) :
    kept bracesLength s i inCode = kept attributeLength s i inCode ↔ Sound s i inCode := by
  constructor
  · exact (compared s i).sound inCode
  · intro h
    rw [kept, scan_of_sound h, kept]

end JsonRpcBridge.Docs
