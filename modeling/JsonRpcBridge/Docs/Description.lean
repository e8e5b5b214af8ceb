import JsonRpcBridge.Docs.Markers

/-!
# Descriptions

`description` turns code markers into Markdown fences. In a text without a backtick the fences are
well formed whatever the text; the rest of the text is kept if and only if no `@code` is followed by
braces that hold something else than an attribute (`description_keeps`).

* `Page`: the output as its lines, with the fences among them and the text kept so far.
-/

namespace JsonRpcBridge.Docs

/-! ## Lines and fences

A fence is a line that begins with three backticks. Markdown reads the fences of a text as
alternately opening and closing, so a text is well formed when its fences alternate, each opening
one naming a language or nothing, and the last one closes. -/

def isFence (line : Bytes) : Bool := startsWith kFence line

/-- The lines that begin with three backticks. -/
def fences (s : Bytes) : List Bytes := (s.splitOn 0x0A).filter isFence

/-- The other lines. -/
def unfenced (s : Bytes) : Bytes := ((s.splitOn 0x0A).filter fun line => !isFence line).flatten

def isLang (lang : Bytes) : Bool := lang.all fun c => isWordChar c || c == 0x2B || c == 0x2D

/-- An opening fence and a closing one, and so on. -/
inductive Alternate : List Bytes → Prop
  | nil : Alternate []
  | block {lang : Bytes} {rest : List Bytes} :
      isLang lang = true → Alternate rest → Alternate ((kFence ++ lang) :: kFence :: rest)

/-- The same of a page that ends in code, or out of it. -/
def Alternates : Bool → List Bytes → Prop
  | false, fs => Alternate fs
  | true, fs => ∃ closed lang, fs = closed ++ [kFence ++ lang] ∧ Alternate closed ∧
      isLang lang = true

/-- A fence that opens code goes to the end. -/
theorem Alternates.opening {fs : List Bytes} {lang : Bytes} (h : Alternates false fs)
    (hlang : isLang lang = true) : Alternates true (fs ++ [kFence ++ lang]) :=
  ⟨fs, lang, rfl, h, hlang⟩

theorem Alternate.append {fs gs : List Bytes} (h : Alternate fs) (h' : Alternate gs) :
    Alternate (fs ++ gs) := by
  induction h with
  | nil => exact h'
  | block hlang _ ih => exact .block hlang ih

/-- A bare fence closes it. -/
theorem Alternates.closing {fs : List Bytes} (h : Alternates true fs) :
    Alternates false (fs ++ [kFence]) := by
  obtain ⟨closed, lang, rfl, hclosed, hlang⟩ := h
  rw [List.append_assoc]
  exact hclosed.append (.block hlang .nil)

/-! ## Pages

The output is written from left to right and never read again, except that spaces at the end of a
line are dropped. So it is described by its whole lines, the line being written, and whether that
line is in code; each operation of the loop is a small change of these, with one lemma. -/

/-- Whole lines, and one that is being written. -/
def written (lines : List Bytes) (last : Bytes) : Bytes := lines.flatMap (· ++ [0x0A]) ++ last

theorem splitOn_written {lines : List Bytes} {last : Bytes} (hlines : ∀ l ∈ lines, 0x0A ∉ l)
    (hlast : 0x0A ∉ last) : (written lines last).splitOn 0x0A = lines ++ [last] := by
  induction lines with
  | nil => exact List.splitOn_eq_singleton hlast
  | cons l lines ih =>
    have hl := hlines l List.mem_cons_self
    rw [written, List.flatMap_cons, List.append_assoc, List.append_assoc, List.singleton_append,
      List.splitOn_append_cons_self_of_not_mem hl]
    exact congrArg (l :: ·) (ih fun m hm => hlines m (List.mem_cons_of_mem _ hm))

/-- The text of the lines that are no fences. -/
def textOf (lines : List Bytes) : Bytes := nonblank (lines.filter fun line => !isFence line).flatten

structure Page (out : Bytes) (inCode : Bool) (kept : Bytes) (lines : List Bytes) (last : Bytes) :
    Prop where
  output : out = written lines last
  whole : ∀ l ∈ lines, 0x0A ∉ l
  line : 0x0A ∉ last
  fenced : Alternates inCode ((lines ++ [last]).filter isFence)
  text : textOf (lines ++ [last]) = kept

/-- A line that is a fence is one more fence. -/
theorem filter_fence {lines : List Bytes} {last : Bytes} (h : isFence last = true) :
    (lines ++ [last]).filter isFence = lines.filter isFence ++ [last] := by
  rw [List.filter_append, List.filter_singleton, h]
  rfl

theorem filter_text {lines : List Bytes} {last : Bytes} (h : isFence last = false) :
    (lines ++ [last]).filter isFence = lines.filter isFence := by
  rw [List.filter_append, List.filter_singleton, h]
  exact List.append_nil _

theorem textOf_fence {lines : List Bytes} {last : Bytes} (h : isFence last = true) :
    textOf (lines ++ [last]) = textOf lines := by
  rw [textOf, List.filter_append, List.filter_singleton, h, textOf]
  exact congrArg (fun l => nonblank l.flatten) (List.append_nil _)

theorem textOf_text {lines : List Bytes} {last : Bytes} (h : isFence last = false) :
    textOf (lines ++ [last]) = textOf lines ++ nonblank last := by
  rw [textOf, List.filter_append, List.filter_singleton, h, List.flatten_append, nonblank_append]
  rw [textOf]
  exact congrArg (fun l => _ ++ nonblank l) List.flatten_singleton

section

variable {out kept : Bytes} {inCode : Bool} {lines : List Bytes} {last : Bytes}

/-- A character that is neither a line break nor a backtick makes no fence. -/
theorem Page.char (h : Page out inCode kept lines last) (hlast : isFence last = false) {c : UInt8}
    (hline : c ≠ 0x0A) (htick : c ≠ 0x60) :
    Page (out ++ [c]) inCode (kept ++ nonblank [c]) lines (last ++ [c]) ∧
      isFence (last ++ [c]) = false := by
  have hfence : isFence (last ++ [c]) = false := by
    rw [Bool.eq_false_iff]
    intro hstart
    obtain ⟨rest, hrest⟩ := startsWith_iff.mp hstart
    rw [isFence, Bool.eq_false_iff] at hlast
    apply hlast
    rw [startsWith_iff]
    -- a fence would end in the character, or have been one before
    rcases List.eq_nil_or_concat rest with rfl | ⟨rest, e, rfl⟩
    · rw [List.append_nil] at hrest
      have hticks : last ++ [c] = [0x60, 0x60] ++ [0x60] := hrest
      exact absurd (List.append_singleton_inj.mp hticks).2 htick
    · rw [List.concat_eq_append, ← List.append_assoc] at hrest
      exact ⟨rest, (List.append_singleton_inj.mp hrest).1⟩
  refine ⟨?_, hfence⟩
  exact {
    output := by rw [h.output, written, written, List.append_assoc]
    whole := h.whole
    line := by
      intro hmem
      rcases List.mem_append.mp hmem with hmem | hmem
      · exact h.line hmem
      · exact hline (List.mem_singleton.mp hmem).symm
    fenced := by
      have hfenced := h.fenced
      rw [filter_text hlast] at hfenced
      rwa [filter_text hfence]
    text := by
      rw [← h.text, textOf_text hlast, textOf_text hfence, nonblank_append, List.append_assoc] }

/-- A line break ends the line. -/
theorem Page.newline (h : Page out inCode kept lines last) :
    Page (out ++ [0x0A]) inCode kept (lines ++ [last]) [] where
  output := by
    rw [h.output, written, written, List.flatMap_append, List.flatMap_singleton, List.append_nil,
      List.append_assoc]
  whole l hl := by
    rcases List.mem_append.mp hl with hl | hl
    · exact h.whole l hl
    · exact List.mem_singleton.mp hl ▸ h.line
  line := List.not_mem_nil
  fenced := by
    rw [filter_text rfl]
    exact h.fenced
  text := by
    rw [textOf_text rfl, h.text]
    exact List.append_nil _

/-! ### Spaces at the end of a line

`startLine` drops the spaces that stand before a fence, and no other part of what is written. -/

theorem rdropWhile_append_of_pos {p : UInt8 → Bool} {l t : Bytes} (ht : ∀ c ∈ t, p c = true) :
    (l ++ t).rdropWhile p = l.rdropWhile p := by
  induction t using List.reverseRecOn with
  | nil => rw [List.append_nil]
  | append_singleton t c ih =>
    have hc := ht c (List.mem_append_right _ (List.mem_singleton_self c))
    rw [← List.append_assoc, List.rdropWhile_concat_pos _ _ _ hc]
    exact ih fun d hd => ht d (List.mem_append_left _ hd)

/-- A line without the spaces at its end. -/
theorem Page.trim (h : Page out inCode kept lines last) (hlast : isFence last = false) :
    Page (written lines (last.rdropWhile isSpace)) inCode kept lines (last.rdropWhile isSpace) ∧
      isFence (last.rdropWhile isSpace) = false := by
  have hsplit : last.rdropWhile isSpace ++ last.rtakeWhile isSpace = last :=
    List.rdropWhile_append_rtakeWhile
  -- what is cut off are blanks, which are not counted
  have hblank : nonblank (last.rtakeWhile isSpace) = [] := by
    apply List.filter_eq_nil_iff.mpr
    intro c hc
    have hspace := List.mem_rtakeWhile_imp hc
    rw [isSpace, Bool.or_eq_true] at hspace
    rcases hspace with hc | hc
    · rw [beq_iff_eq.mp hc]
      decide
    · rw [beq_iff_eq.mp hc]
      decide
  -- cutting off the end makes no fence of a line that was none
  have hfence : isFence (last.rdropWhile isSpace) = false := by
    rw [Bool.eq_false_iff] at hlast ⊢
    intro hstart
    obtain ⟨rest, hrest⟩ := startsWith_iff.mp hstart
    apply hlast
    rw [isFence, startsWith_iff, ← hsplit, hrest, List.append_assoc]
    exact ⟨_, rfl⟩
  refine ⟨?_, hfence⟩
  exact {
    output := rfl
    whole := h.whole
    line := fun hmem => h.line ((List.rdropWhile_prefix _ _).subset hmem)
    fenced := by
      have hfenced := h.fenced
      rw [filter_text hlast] at hfenced
      rwa [filter_text hfence]
    text := by
      rw [← h.text, textOf_text hlast, textOf_text hfence]
      conv_rhs => rw [← hsplit, nonblank_append, hblank, List.append_nil] }

/-- The last character of a page is that of the line, or the line break before it. -/
theorem getLast?_written (lines : List Bytes) (last : Bytes) :
    (written lines last).getLast? =
      if last = [] then (if lines = [] then none else some 0x0A) else last.getLast? := by
  rw [written]
  split
  · rename_i hlast
    rw [hlast, List.append_nil]
    rcases List.eq_nil_or_concat lines with rfl | ⟨lines, l, rfl⟩
    · rfl
    · rw [List.concat_eq_append, if_neg (by simp), List.flatMap_append, List.flatMap_singleton,
        ← List.append_assoc, List.getLast?_concat]
  · rename_i hlast
    exact List.getLast?_append_of_ne_nil _ hlast

theorem rdropWhile_written (lines : List Bytes) (last : Bytes) :
    (written lines last).rdropWhile isSpace = written lines (last.rdropWhile isSpace) := by
  have hsplit : last.rdropWhile isSpace ++ last.rtakeWhile isSpace = last :=
    List.rdropWhile_append_rtakeWhile
  conv_lhs => rw [← hsplit, written, ← List.append_assoc]
  rw [rdropWhile_append_of_pos fun c hc => List.mem_rtakeWhile_imp hc]
  show (written lines (last.rdropWhile isSpace)).rdropWhile isSpace = _
  rw [List.rdropWhile_eq_self_iff]
  intro hne
  have hget := getLast?_written lines (last.rdropWhile isSpace)
  rw [List.getLast?_eq_some_getLast hne] at hget
  split at hget
  · split at hget
    · cases hget
    · rw [Option.some.inj hget]
      decide
  · rename_i hlast
    rw [List.getLast?_eq_some_getLast hlast] at hget
    rw [Option.some.inj hget]
    exact List.rdropWhile_last_not _ _ hlast

/-- Spaces at the end of a line are dropped. -/
theorem Page.startLine (h : Page out inCode kept lines last) (hlast : isFence last = false) :
    ∃ lines', Page (startLine out) inCode kept lines' [] := by
  obtain ⟨htrim, -⟩ := h.trim hlast
  rw [Docs.startLine, h.output, rdropWhile_written]
  split
  · rename_i hstart
    have hnil : last.rdropWhile isSpace = [] := by
      by_contra hne
      rw [Bool.or_eq_true, beq_iff_eq, getLast?_written, if_neg hne] at hstart
      rcases hstart with hempty | hget
      · rw [List.isEmpty_iff, written] at hempty
        exact hne (List.append_eq_nil_iff.mp hempty).2
      · exact htrim.line (List.mem_of_getLast? hget)
    rw [hnil] at htrim ⊢
    exact ⟨lines, htrim⟩
  · exact ⟨_, htrim.newline⟩

theorem isFence_fence (lang : Bytes) : isFence (kFence ++ lang) = true :=
  startsWith_iff.mpr ⟨lang, rfl⟩

/-- A fence with its language, on a line of its own. -/
theorem Page.openFence {lang : Bytes} (h : Page out false kept lines [])
    (hlang : isLang lang = true) :
    Page (out ++ kFence ++ lang ++ [0x0A]) true kept (lines ++ [kFence ++ lang]) [] := by
  have hline : 0x0A ∉ lang := by
    intro hmem
    exact absurd (List.all_eq_true.mp hlang _ hmem) (by decide)
  apply Page.newline
  exact {
    output := by
      rw [h.output, written, written, List.append_nil, List.append_assoc]
    whole := h.whole
    line := by
      intro hmem
      rcases List.mem_append.mp hmem with hmem | hmem
      · exact absurd hmem (by decide)
      · exact hline hmem
    fenced := by
      have hfenced := h.fenced
      rw [filter_text rfl] at hfenced
      rw [filter_fence (isFence_fence lang)]
      exact hfenced.opening hlang
    text := by
      rw [textOf_fence (isFence_fence lang), ← h.text, textOf_text rfl]
      exact (List.append_nil _).symm }

/-- The closing fence; no line break follows yet. -/
theorem Page.closeFence (h : Page out true kept lines []) :
    Page (out ++ kFence) false kept lines kFence where
  output := by rw [h.output, written, written, List.append_nil]
  whole := h.whole
  line := by decide
  fenced := by
    have hfenced := h.fenced
    rw [filter_text rfl] at hfenced
    rw [filter_fence rfl]
    exact hfenced.closing
  text := by
    rw [textOf_fence rfl, ← h.text, textOf_text rfl]
    exact (List.append_nil _).symm

end

/-! ## The loop

The loop of `description` and the greedy scan of a text walk along it in step: where the scan
finds a marker, the loop writes a fence. After the closing fence it either writes a line break or
has found one in the text, which is why the invariant has a second case (`Closed`) that says what
comes next. -/

theorem isLang_wordsOrNothing (lang : Bytes) :
    isLang (if lang.all fun c => isWordChar c || c == 0x2B || c == 0x2D then lang else []) =
      true := by
  split
  · assumption
  · rfl

theorem isLang_fenceLang (braced : Bytes) : isLang (fenceLang braced) = true :=
  isLang_wordsOrNothing _

/-- The language is word characters or nothing, and everything in braces is passed over. -/
theorem codeLang_spec (s : Bytes) (j : Nat) :
    isLang (codeLang s j).1 = true ∧ (codeLang s j).2 = j + bracesLength (s.drop j) := by
  rw [codeLang, bracesLength]
  generalize s.drop j = after
  split
  · rename_i rest
    rw [show braces (0x7B :: rest) = (find 0x7D rest).map rest.take from rfl]
    cases hfind : find 0x7D rest with
    | none => exact ⟨rfl, rfl⟩
    | some n =>
      have hn : n < rest.length := (List.findIdx?_eq_some_iff_getElem.mp hfind).1
      refine ⟨isLang_fenceLang _, ?_⟩
      show j + 1 + n + 1 = j + ((rest.take n).length + 2)
      rw [List.length_take]
      omega
  · rename_i hother
    have hnone : braces after = none := by
      rw [braces.eq_def]
      split
      · rename_i rest
        exact absurd rfl (hother rest)
      · rfl
    rw [hnone]
    exact ⟨rfl, rfl⟩

/-- Spaces, which a scan shows nothing of. -/
theorem kept_skipSpaces {skip : Bytes → Nat} (s : Bytes) (j : Nat) (inCode : Bool) :
    kept skip s (skipSpaces s j) inCode = kept skip s j inCode := by
  have hspace : ∀ c ∈ (s.drop j).takeWhile isSpace, c = 0x20 ∨ c = 0x09 := by
    intro c hc
    have hc := List.mem_takeWhile_imp hc
    rwa [isSpace, Bool.or_eq_true, beq_iff_eq, beq_iff_eq] at hc
  have hblank : nonblank ((s.drop j).takeWhile isSpace) = [] := by
    apply List.filter_eq_nil_iff.mpr
    intro c hc
    rcases hspace c hc with rfl | rfl <;> decide
  have hat : 0x40 ∉ (s.drop j).takeWhile isSpace := by
    intro hc
    rcases hspace _ hc with hc | hc <;> exact absurd hc (by decide)
  rw [skipSpaces, kept_text (List.takeWhile_append_dropWhile).symm hat, hblank, List.nil_append]

theorem kept_newline {skip : Bytes → Nat} {s : Bytes} {j : Nat} (inCode : Bool)
    (h : (s.drop j).head? = some 0x0A) :
    kept skip s (j + 1) inCode = kept skip s j inCode := by
  obtain ⟨rest, hdrop⟩ : ∃ rest, s.drop j = 0x0A :: rest := by
    cases hdrop : s.drop j with
    | nil =>
      rw [hdrop] at h
      cases h
    | cons c rest =>
      rw [hdrop] at h
      exact ⟨rest, by rw [Option.some.inj h]⟩
  rw [kept_plain hdrop (plain_of_ne hdrop (by decide) inCode)]
  rfl

/-! ### The two states of the loop -/

/-- The line being written is text. -/
def Writing (out : Bytes) (inCode : Bool) (kept : Bytes) : Prop :=
  ∃ lines last, Page out inCode kept lines last ∧ isFence last = false

/-- The last line is a fence that has just been closed. -/
def Closed (out : Bytes) (inCode : Bool) (kept : Bytes) : Prop :=
  inCode = false ∧ ∃ lines, Page out false kept lines kFence

/-- An opening fence begins a line, and text goes on below it. -/
theorem Writing.open {out kept lang : Bytes} (h : Writing out false kept)
    (hlang : isLang lang = true) : Writing (startLine out ++ kFence ++ lang ++ [0x0A]) true kept := by
  obtain ⟨lines, last, hpage, hlast⟩ := h
  obtain ⟨lines', hpage⟩ := hpage.startLine hlast
  exact ⟨_, [], hpage.openFence hlang, rfl⟩

/-- A closing fence begins a line too. -/
theorem Writing.close {out kept : Bytes} (h : Writing out true kept) :
    Closed (startLine out ++ kFence) false kept := by
  obtain ⟨lines, last, hpage, hlast⟩ := h
  obtain ⟨lines', hpage⟩ := hpage.startLine hlast
  exact ⟨rfl, lines', hpage.closeFence⟩

theorem Closed.newline {out kept : Bytes} {inCode : Bool} (h : Closed out inCode kept) :
    Writing (out ++ [0x0A]) inCode kept := by
  obtain ⟨rfl, lines, hpage⟩ := h
  exact ⟨_, [], hpage.newline, rfl⟩

theorem Writing.char {out kept : Bytes} {inCode : Bool} (h : Writing out inCode kept) {c : UInt8}
    (hc : c ≠ 0x60) : Writing (out ++ [c]) inCode (kept ++ nonblank [c]) := by
  obtain ⟨lines, last, hpage, hlast⟩ := h
  by_cases hline : c = 0x0A
  · subst hline
    refine ⟨lines ++ [last], [], ?_, rfl⟩
    rw [show nonblank [0x0A] = [] by decide, List.append_nil]
    exact hpage.newline
  · obtain ⟨hpage, hlast⟩ := hpage.char hlast hline hc
    exact ⟨_, _, hpage, hlast⟩

/-- The page and what of the text is still to come. -/
def Reached (s : Bytes) (i : Nat) (out : Bytes) (inCode : Bool) (kept : Bytes) : Prop :=
  Writing out inCode kept ∨
    Closed out inCode kept ∧ ∀ c, (s.drop i).head? = some c → c = 0x0A

/-- From any position, with enough fuel: the page at the end has kept what the scan keeps. -/
theorem reached_descriptionLoop {s : Bytes} (hs : 0x60 ∉ s) (fuel : Nat) {i : Nat}
    {inCode : Bool} {out shown : Bytes} (hfuel : s.length - i ≤ fuel) (h : Reached s i out inCode shown) :
    Writing (descriptionLoop s fuel i inCode out).1 (descriptionLoop s fuel i inCode out).2
        (shown ++ kept bracesLength s i inCode) ∨
      Closed (descriptionLoop s fuel i inCode out).1 (descriptionLoop s fuel i inCode out).2
        (shown ++ kept bracesLength s i inCode) := by
  induction fuel generalizing i inCode out shown with
  | zero =>
    rw [kept_end (by omega), List.append_nil]
    exact h.imp id And.left
  | succ fuel ih =>
    rw [descriptionLoop]
    split
    · rename_i hnil
      rw [kept_end (List.drop_eq_nil_iff.mp hnil), List.append_nil]
      exact h.imp id And.left
    · rename_i c rest hdrop
      have hi := lt_of_drop hdrop
      -- behind a closing fence there is a line break, so nothing else finds the fence open
      have hwriting : c ≠ 0x0A → Writing out inCode shown := by
        intro hc
        rcases h with h | ⟨-, hnext⟩
        · exact h
        · exact absurd (hnext c (by rw [hdrop]; rfl)) hc
      split
      · rename_i hcode
        simp only [Bool.and_eq_true, Bool.not_eq_true'] at hcode
        obtain ⟨⟨rfl, hc⟩, hkey⟩ := hcode
        obtain rfl := beq_iff_eq.mp hc
        -- `@code`: a fence with the language, then the text behind it
        obtain ⟨hlang, hj⟩ := codeLang_spec s (i + 5)
        rw [kept_opening hkey, ← hj]
        generalize codeLang s (i + 5) = code at hlang hj
        obtain ⟨lang, j⟩ := code
        dsimp only at hlang hj ⊢
        have hskip : j ≤ skipSpaces s j := Nat.le_add_right _ _
        have hopened := (hwriting (by decide)).open hlang
        split
        · rename_i hline
          rw [← kept_skipSpaces s j, ← kept_newline true (beq_iff_eq.mp hline)]
          exact ih (by omega) (Or.inl hopened)
        · rw [← kept_skipSpaces s j]
          exact ih (by omega) (Or.inl hopened)
      split
      · rename_i hcode
        simp only [Bool.and_eq_true] at hcode
        obtain ⟨⟨rfl, hc⟩, hkey⟩ := hcode
        obtain rfl := beq_iff_eq.mp hc
        have hskip : i + 8 ≤ skipSpaces s (i + 8) := Nat.le_add_right _ _
        -- `@endcode`: the fence, and a line break if the text has none
        have hclosed := (hwriting (by decide)).close
        rw [kept_closing hkey, ← kept_skipSpaces s (i + 8)]
        dsimp only
        split
        · exact ih (by omega) (Or.inl hclosed.newline)
        · rename_i hline
          refine ih (by omega) (Or.inr ⟨hclosed, ?_⟩)
          intro d hd
          by_contra hne
          apply hline
          rw [Bool.and_eq_true, bne_iff_ne, hd, decide_eq_true_eq]
          refine ⟨?_, fun heq => hne (Option.some.inj heq)⟩
          by_contra hge
          rw [List.drop_eq_nil_of_le (by omega)] at hd
          cases hd
      · rename_i hcode hend
        -- any other character
        have hplain : Plain s i inCode := by
          rw [Plain, ← Bool.not_eq_true]
          intro hkey
          cases inCode with
          | true =>
            have hc : c = 0x40 := head_of_keyword hkey (by decide) hdrop
            apply hend
            rw [hc]
            exact hkey
          | false =>
            have hc : c = 0x40 := head_of_keyword hkey (by decide) hdrop
            apply hcode
            rw [hc]
            exact hkey
        have htick : c ≠ 0x60 := by
          rintro rfl
          apply hs
          have hmem : (0x60 : UInt8) ∈ s.drop i := by
            rw [hdrop]
            exact List.mem_cons_self
          exact List.mem_of_mem_drop hmem
        rw [kept_plain hdrop hplain, ← List.append_assoc]
        apply ih (by omega)
        rcases h with h | ⟨hclosed, hnext⟩
        · exact Or.inl (h.char htick)
        · obtain rfl : c = 0x0A := hnext c (by rw [hdrop]; rfl)
          rw [show nonblank [0x0A] = [] by decide, List.append_nil]
          exact Or.inl hclosed.newline

/-! ## The description

The text is sanitised first, which puts no backtick into it. What is left to do after the loop is
to close code that the author has left open, and to trim. -/

/-- What stands for a byte that is no UTF-8 has no backtick in it. -/
theorem tick_notMem_sanitize {s : Bytes} (h : 0x60 ∉ s) : 0x60 ∉ utf8Sanitize s := by
  have hloop : ∀ fuel (s : Bytes), 0x60 ∉ s → 0x60 ∉ sanitizeLoop fuel s := by
    intro fuel
    induction fuel with
    | zero => exact fun _ _ => List.not_mem_nil
    | succ fuel ih =>
      intro s hs
      cases s with
      | nil => exact List.not_mem_nil
      | cons c s =>
        rw [sanitizeLoop]
        split
        · intro hmem
          rcases List.mem_append.mp hmem with hmem | hmem
          · exact absurd hmem (by decide)
          · exact ih s (fun hm => hs (List.mem_cons_of_mem _ hm)) hmem
        · intro hmem
          rcases List.mem_append.mp hmem with hmem | hmem
          · exact hs (List.mem_of_mem_take hmem)
          · exact ih _ (fun hm => hs (List.mem_of_mem_drop hm)) hmem
  rw [utf8Sanitize]
  split
  · exact h
  · exact hloop _ s h

theorem page_description {desc : Bytes} (h : 0x60 ∉ desc) :
    ∃ lines last, Page (description desc) false
      (kept bracesLength (utf8Sanitize desc) 0 false) lines last := by
  have hempty : Writing [] false [] :=
    ⟨[], [], ⟨rfl, fun _ hl => absurd hl List.not_mem_nil, List.not_mem_nil, .nil, rfl⟩, rfl⟩
  have hreached := reached_descriptionLoop (tick_notMem_sanitize h) (utf8Sanitize desc).length
    (i := 0) (Nat.sub_le _ _) (Or.inl hempty)
  rw [List.nil_append] at hreached
  rw [description]
  generalize descriptionLoop (utf8Sanitize desc) (utf8Sanitize desc).length 0 false [] = result
    at hreached
  obtain ⟨out, inCode⟩ := result
  cases inCode with
  | true =>
    rcases hreached with hwriting | ⟨hout, -⟩
    · obtain ⟨-, lines, hpage⟩ := hwriting.close
      exact ⟨lines, _, hpage⟩
    · cases hout
  | false =>
    rcases hreached with ⟨lines, last, hpage, -⟩ | ⟨-, lines, hpage⟩
    · exact ⟨lines, last, hpage⟩
    · exact ⟨lines, _, hpage⟩

/-! ### Kept, and lost -/

/-- **Fences are well formed, and text is lost exactly where braces after `@code` hold something
that is no attribute.** -/
theorem description_keeps (desc : Bytes) (h : 0x60 ∉ desc) :
    Alternate (fences (description desc)) ∧
      (nonblank (unfenced (description desc)) = shown (pieces (utf8Sanitize desc)) ↔
        ∀ after, .opening after ∈ pieces (utf8Sanitize desc) →
          ∀ braced, braces after = some braced → isAttribute braced = true) := by
  obtain ⟨lines, last, hpage⟩ := page_description h
  have hlines : (description desc).splitOn 0x0A = lines ++ [last] := by
    rw [hpage.output, splitOn_written hpage.whole hpage.line]
  constructor
  · rw [fences, hlines]
    exact hpage.fenced
  · rw [unfenced, hlines]
    have htext : nonblank ((lines ++ [last]).filter fun line => !isFence line).flatten =
        kept bracesLength (utf8Sanitize desc) 0 false := hpage.text
    rw [htext]
    exact kept_eq_iff (utf8Sanitize desc) 0 false

theorem description_keeps_json :
    Alternate (fences (description (str "Config:\n@code\x7b.json\x7d\n[1]\n@endcode\nDone."))) ∧
      (nonblank (unfenced (description (str "Config:\n@code\x7b.json\x7d\n[1]\n@endcode\nDone."))) =
          shown (pieces (utf8Sanitize (str "Config:\n@code\x7b.json\x7d\n[1]\n@endcode\nDone."))) ↔
        ∀ after, .opening after ∈
            pieces (utf8Sanitize (str "Config:\n@code\x7b.json\x7d\n[1]\n@endcode\nDone.")) →
          ∀ braced, braces after = some braced → isAttribute braced = true) :=
  description_keeps _ (by decide)

/-- The statement in braces is lost. -/
theorem not_description_keeps :
    ¬ ∀ desc : Bytes, 0x60 ∉ desc → Alternate (fences (description desc)) ∧
      nonblank (unfenced (description desc)) = shown (pieces (utf8Sanitize desc)) := by
  intro h
  have hlost : description (str "@code\x7b x = 1; \x7d\ny\n@endcode") = str "```\ny\n```" := by
    decide +kernel
  have hkept : shown (pieces (utf8Sanitize (str "@code\x7b x = 1; \x7d\ny\n@endcode"))) =
      str "\x7bx=1;\x7dy" := by
    decide +kernel
  have hboth := (h (str "@code\x7b x = 1; \x7d\ny\n@endcode") (by decide)).2
  rw [hlost, hkept] at hboth
  exact absurd hboth (by decide +kernel)

end JsonRpcBridge.Docs
