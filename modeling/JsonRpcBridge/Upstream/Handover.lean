import JsonRpcBridge.Upstream.Shutdown
import Mathlib.Data.Multiset.Bind

/-!
# The books of a shutdown

The books of the registry are kept through the shutdown (`Accounts`). A job in the queue has in hand
what it has when it runs, and so have the clients that `close` moved out. A box whose job died in the
queue is in the hands of the other owner, which takes the client with it.
-/

namespace JsonRpcBridge.Upstream.Registry.Shutdown

open Interleaving

/-! ## Boxes

A box has at most two owners, its job and `finished`. The last one takes with it what is in the
box. -/

section Registry
variable {sh : Shared} {x y : Pc} {accepted : Bool} {e : Effect Shared Pc} {others : Multiset Pc}
  {k b : Nat}

theorem owners_dropBox (sh : Shared) (b b' : Nat) :
    ((sh.dropBox b).boxes b').owners ≤ (sh.boxes b').owners ∧
      ((sh.dropBox b).boxes b).owners = (sh.boxes b).owners - 1 := by
  have hboxes : (sh.dropBox b).boxes =
      Function.update sh.boxes b { sh.boxes b with owners := (sh.boxes b).owners - 1 } := by
    unfold Shared.dropBox
    dsimp only
    split <;> rfl
  rw [hboxes]
  constructor
  · by_cases hb : b' = b
    · rw [hb, Function.update_self]
      exact Nat.sub_le _ _
    · rw [Function.update_of_ne hb]
  · rw [Function.update_self]

theorem madeBoxes_dropBox (sh : Shared) (b : Nat) : (sh.dropBox b).madeBoxes = sh.madeBoxes := by
  unfold Shared.dropBox
  dsimp only
  split <;> rfl

/-- Boxes are made by `finished`, and get no more owners than they have. -/
theorem boxes_exec (hexec : Registry.exec sh x accepted = some e) :
    sh.madeBoxes ≤ e.shared.madeBoxes ∧
      ∀ b, (e.shared.boxes b).owners ≤ (sh.boxes b).owners ∨
        b = sh.madeBoxes ∧ (e.shared.boxes b).owners ≤ 2 := by
  have hsame : ∀ {sh' : Shared}, sh'.boxes = sh.boxes → sh'.madeBoxes = sh.madeBoxes →
      sh.madeBoxes ≤ sh'.madeBoxes ∧
        ∀ b, (sh'.boxes b).owners ≤ (sh.boxes b).owners ∨
          b = sh.madeBoxes ∧ (sh'.boxes b).owners ≤ 2 := by
    intro sh' hboxes hmade
    exact ⟨Nat.le_of_eq hmade.symm, fun b => .inl (Nat.le_of_eq (congrArg Box.owners (congrFun hboxes b)))⟩
  have hcurrent : ∀ m, (sh.currentLocked m).1.boxes = sh.boxes ∧
      (sh.currentLocked m).1.madeBoxes = sh.madeBoxes := by
    intro m
    unfold Shared.currentLocked
    dsimp only
    split <;> exact ⟨rfl, rfl⟩
  cases x with
  | get m =>
      cases hexec
      unfold Registry.get
      dsimp only
      repeat' split
      · exact hsame rfl rfl
      all_goals exact hsame (hcurrent m).1 (hcurrent m).2
  | invoke m c =>
      cases hexec
      unfold Registry.invoke
      dsimp only
      repeat' split
      · exact hsame rfl rfl
      all_goals exact hsame (hcurrent m).1 (hcurrent m).2
  | replace m epoch =>
      cases hexec
      unfold Registry.replace
      dsimp only
      repeat' split
      all_goals exact hsame rfl rfl
  | finished k c value err =>
      cases hexec
      obtain ⟨modules, hjudged, -⟩ := judge_same (sh.setInFlight k ((sh.slots k).inFlight - 1)) k err
      unfold Registry.finished
      dsimp only
      rw [show sh.setSlot k { sh.slots k with inFlight := (sh.slots k).inFlight - 1 } =
        sh.setInFlight k ((sh.slots k).inFlight - 1) from rfl, hjudged]
      split <;> exact hsame rfl rfl
  -- a new box, with one owner or two
  | postRelease k =>
      have hnew : ∀ n, n ≤ 2 → ∀ b,
          (Function.update sh.boxes sh.madeBoxes ⟨k, true, n⟩ b).owners ≤ (sh.boxes b).owners ∨
            b = sh.madeBoxes ∧ (Function.update sh.boxes sh.madeBoxes ⟨k, true, n⟩ b).owners ≤ 2 := by
        intro n hn b
        by_cases hb : b = sh.madeBoxes
        · right
          rw [hb, Function.update_self]
          exact ⟨rfl, hn⟩
        · left
          rw [Function.update_of_ne hb]
      cases accepted with
      | true =>
          cases hexec
          exact ⟨Nat.le_succ _, hnew 2 (Nat.le_refl _)⟩
      | false =>
          cases hexec
          exact ⟨Nat.le_succ _, hnew 1 (Nat.le_succ _)⟩
  | keep k b =>
      cases hexec
      refine ⟨Nat.le_refl _, fun b' => .inl ?_⟩
      show (Function.update sh.boxes b _ b').owners ≤ _
      by_cases hb : b' = b
      · rw [hb, Function.update_self]
      · rw [Function.update_of_ne hb]
  | release k b =>
      cases hexec
      dsimp only
      constructor
      · rw [madeBoxes_dropBox]
        split <;> exact Nat.le_refl _
      · intro b'
        left
        refine Nat.le_trans (owners_dropBox _ b b').1 ?_
        have hreset : ∀ b'', (Function.update sh.boxes b { sh.boxes b with full := false } b'').owners =
            (sh.boxes b'').owners := by
          intro b''
          by_cases hb : b'' = b
          · rw [hb, Function.update_self]
          · rw [Function.update_of_ne hb]
        split <;> exact Nat.le_of_eq (hreset b')
  | dropBox k b =>
      cases hexec
      exact ⟨Nat.le_of_eq (madeBoxes_dropBox sh b).symm, fun b' => .inl (owners_dropBox sh b b').1⟩
  | close | submit | onReplaced | drop | postReplace | done =>
      cases hexec
      exact hsame rfl rfl

/-- A box that a section has yet to empty has its client in it, which goes with the last owner. -/
theorem leaveBox_of_last (h : Inv sh (.release k b ::ₘ others)) (hlast : (sh.boxes b).owners ≤ 1) :
    leaveBox sh b = ((sh.setBox b { sh.boxes b with full := false }).dropRef k).dropBox b ∧
      lastOf sh b = true := by
  obtain ⟨hfull, hclient, -⟩ := h.full rfl
  have howners := h.boxes.owners b
  rw [carried_cons, if_pos (show (Pc.release k b).owns = some b from rfl)] at howners
  have hone : lastOf sh b = true := by
    rw [lastOf, hfull, Bool.and_true, beq_iff_eq]
    omega
  refine ⟨?_, hone⟩
  unfold leaveBox
  dsimp only
  rw [if_pos hone, hclient]

/-- Otherwise nothing goes with the owner. -/
theorem leaveBox_of_dropBox (h : Inv sh (.dropBox k b ::ₘ others)) :
    leaveBox sh b = sh.dropBox b ∧ lastOf sh b = false := by
  have hnot : lastOf sh b = false := by
    rw [lastOf, Bool.and_eq_false_imp]
    intro hone
    rw [beq_iff_eq, h.boxes.owners b, carried_cons,
      if_pos (show (Pc.dropBox k b).owns = some b from rfl)] at hone
    have hempty := carried_empties_of_owns (k := (sh.boxes b).client)
      (show carried Pc.owns b others = 0 by omega)
    by_contra hfull
    have hcount := h.boxes.full b (sh.boxes b).client
    rw [carried_cons_of_none rfl, hempty, if_pos ⟨by simpa using hfull, rfl⟩] at hcount
    cases hcount
  refine ⟨?_, hnot⟩
  unfold leaveBox
  dsimp only
  rw [hnot, if_neg Bool.false_ne_true]

/-! ## The books

A job that dies in the queue leaves its box full, with `finished` as its one owner. The list
`left` says which boxes these are, so that the books can count the reference there. -/

/-- The books of the registry, where a box on the list `left` is in the hands of `finished`. -/
structure Ledger (sh : Shared) (left : List (Nat × Nat)) (q : Multiset Pc) : Prop where
  inv : Inv sh q
  homes : Homes sh
  gives : Gives sh q
  owners : ∀ b, (sh.boxes b).owners ≤ 2
  lone : ∀ b k, left.lookup b = some k → b < sh.madeBoxes ∧ (sh.boxes b).owners ≤ 1
  kept : ∀ k b, .keep k b ∈ q → left.lookup b = none

variable {left : List (Nat × Nat)} {q : Multiset Pc}

/-- **Step**, of a section of the registry. -/
theorem Ledger.exec (h : Ledger sh left (x ::ₘ q)) (hexec : Registry.exec sh x accepted = some e) :
    Ledger e.shared left (e.made + q) := by
  have hkeeps := Keeps.exec h.inv hexec
  obtain ⟨hmade, hboxes⟩ := boxes_exec hexec
  refine ⟨h.inv.exec hexec, hkeeps.homes h.homes, h.gives.exec h.inv hexec, ?owners, ?lone, ?kept⟩
  case owners =>
    intro b
    rcases hboxes b with hle | ⟨-, htwo⟩
    · exact Nat.le_trans hle (h.owners b)
    · exact htwo
  case lone =>
    intro b k hb
    obtain ⟨hlt, hone⟩ := h.lone b k hb
    refine ⟨Nat.lt_of_lt_of_le hlt hmade, ?_⟩
    rcases hboxes b with hle | ⟨rfl, -⟩
    · exact Nat.le_trans hle hone
    · exact absurd hlt (Nat.lt_irrefl _)
  case kept =>
    intro k b hmem
    rcases Multiset.mem_add.mp hmem with hmem | hmem
    · rcases Effect.mem_made.mp hmem with hnext | ⟨t, ht, hyt⟩
      · cases exec_leads hexec hnext with
        | refused =>
            rw [Option.eq_none_iff_forall_ne_some]
            intro k' hk'
            exact absurd (h.lone _ _ hk').1 (Nat.lt_irrefl _)
      · rcases exec_spawn hexec with hnone | ⟨-, ⟨k', -, hspawn⟩ | ⟨k', m, epoch, -, hspawn⟩⟩
        · rw [hnone] at ht
          cases ht
        all_goals
          rw [hspawn, List.mem_singleton] at ht
          rw [ht, List.mem_singleton] at hyt
          cases hyt
    · exact h.kept k b (Multiset.mem_cons_of_mem hmem)

theorem Ledger.leave (h : Ledger sh left (.dropBox k b ::ₘ q)) :
    Ledger (leaveBox sh b) left q := by
  rw [(leaveBox_of_dropBox h.inv).1]
  have hexec : Registry.exec sh (.dropBox k b) true = some { shared := sh.dropBox b } := rfl
  simpa [Effect.made] using h.exec hexec

/-- The last owner takes the client with it. -/
theorem Ledger.release (h : Ledger sh left (.release k b ::ₘ q)) (hlast : (sh.boxes b).owners ≤ 1) :
    Ledger (leaveBox sh b) left q := by
  rw [(leaveBox_of_last h.inv hlast).1]
  obtain ⟨hfull, rfl, -⟩ := h.inv.full rfl
  have hexec : Registry.exec sh (.release (sh.boxes b).client b) true = some
      { shared := ((sh.setBox b { sh.boxes b with full := false }).dropRef
          (sh.boxes b).client).dropBox b } := by
    show some _ = _
    rw [if_pos hfull]
  simpa [Effect.made] using h.exec hexec

/-- The job of a release dies while `finished` owns the box: the client is in the hands of that
now. -/
theorem Ledger.leaveLeft {j : Nat} (h : Ledger sh left (.release k b ::ₘ .dropBox j b ::ₘ q))
    (htwo : (sh.boxes b).owners = 2) :
    Ledger (leaveBox sh b) ((b, k) :: left) (.release k b ::ₘ q) := by
  rw [Multiset.cons_swap] at h
  obtain ⟨hsame, -⟩ := leaveBox_of_dropBox h.inv
  have hrest := h.leave
  have hmade : b < sh.madeBoxes := by
    by_contra hle
    have hfresh := h.inv.boxes.fresh b (by omega)
    omega
  refine ⟨hrest.inv, hrest.homes, hrest.gives, hrest.owners, ?lone, ?kept⟩
  case lone =>
    intro b' k' hb'
    rw [List.lookup_cons] at hb'
    split at hb'
    · rename_i heq
      rw [beq_iff_eq.mp heq, hsame, madeBoxes_dropBox, (owners_dropBox sh b b).2]
      exact ⟨hmade, by omega⟩
    · exact hrest.lone b' k' hb'
  case kept =>
    intro k' b' hmem
    rw [List.lookup_cons]
    split
    · rename_i heq
      have hnone := (hrest.inv.full rfl).2.2 k'
      rw [carried_eq_zero] at hnone
      rcases Multiset.mem_cons.mp hmem with hrelease | hmem
      · cases hrelease
      · refine absurd ?_ (hnone _ hmem)
        rw [beq_iff_eq.mp heq]
        rfl
    · exact hrest.kept k' b' hmem

/-- A section that holds nothing may come and go. -/
theorem Ledger.idle (hidle : x.Idle) (hgives : x.gives = none) (hkeep : ∀ k b, x ≠ .keep k b) :
    Ledger sh left (x ::ₘ q) ↔ Ledger sh left q := by
  constructor
  · intro h
    exact ⟨(Inv.idle hidle).mp h.inv, h.homes,
      ⟨fun y hy => h.gives.sections y (Multiset.mem_cons_of_mem hy), h.gives.unreleased⟩, h.owners,
      h.lone, fun k b hmem => h.kept k b (Multiset.mem_cons_of_mem hmem)⟩
  · intro h
    refine ⟨(Inv.idle hidle).mpr h.inv, h.homes, ⟨?_, h.gives.unreleased⟩, h.owners, h.lone, ?_⟩
    · intro y hy k hk
      rcases Multiset.mem_cons.mp hy with rfl | hy
      · cases hgives.symm.trans hk
      · exact h.gives.sections y hy k hk
    · intro k b hmem
      rcases Multiset.mem_cons.mp hmem with heq | hmem
      · exact absurd heq.symm (hkeep k b)
      · exact h.kept k b hmem

theorem Ledger.get (m : Bytes) : Ledger sh left (.get m ::ₘ q) ↔ Ledger sh left q := by
  apply Ledger.idle (idle_get m) rfl
  intro k b heq
  cases heq

theorem Ledger.gets (ms : List Bytes) :
    Ledger sh left (↑(ms.map Pc.get) + q) ↔ Ledger sh left q := by
  induction ms with
  | nil => rw [List.map_nil, Multiset.coe_nil, zero_add]
  | cons m ms ih => rw [List.map_cons, ← Multiset.cons_coe, Multiset.cons_add, Ledger.get, ih]

end Registry

/-! ## What a section has in hand

`books` translates the sections of the shutdown into sections of the registry that carry the
same, so that the invariant of the registry can be asked of them. -/

/-- What may be in the queue of the pump. -/
def job : Pc → Bool
  | .invoke .. | .get _ | .replace .. | .release .. => true
  | _ => false

/-- A section as sections of the registry, which say what it has in hand. -/
def Section.books (left : List (Nat × Nat)) : Section → List Pc
  | .work _ (.dropBox k b) =>
    match left.lookup b with
    | some k => [.release k b]
    | none => [.dropBox k b]
  | .work _ x => [x]
  | .closing dead => dead.map .drop
  | .dropping jobs => jobs
  | _ => []

/-- What all sections, the queue and the dropped jobs have in hand. -/
def books (sh : Bridge) (p : Multiset Section) : Multiset Pc :=
  p.bind (fun x => (x.books sh.left : Multiset Pc)) + ↑(sh.queue ++ sh.dropped)

/-- The books of the registry, and what may be in the queue and among the dying jobs. -/
structure Accounts (sh : Bridge) (p : Multiset Section) : Prop where
  ledger : Ledger sh.registry sh.left (books sh p)
  jobs : ∀ x ∈ sh.queue, job x = true
  dying : ∀ jobs, .dropping jobs ∈ p → ∀ x ∈ jobs, job x = true
  dropped : ∀ x ∈ sh.dropped, job x = true ∧ x.holds = none

variable {sh : Bridge} {p others : Multiset Section} {e : Effect Bridge Section} {ms : List Bytes}

/-! ### Translating -/

theorem books_cons (sh : Bridge) (x : Section) (p : Multiset Section) :
    books sh (x ::ₘ p) = ↑(x.books sh.left) + books sh p := by
  rw [books, Multiset.cons_bind, add_assoc]
  rfl

theorem books_work {left : List (Nat × Nat)} {who : Who} {x : Pc}
    (h : ∀ k b, x = .dropBox k b → left.lookup b = none) :
    (Section.work who x).books left = [x] := by
  cases x with
  | dropBox k b => rw [Section.books, h k b rfl]
  | _ => rfl

theorem books_works {left : List (Nat × Nat)} {who : Who} {l : List Pc}
    (h : ∀ x ∈ l, ∀ k b, x = .dropBox k b → left.lookup b = none) :
    (l.map (Section.work who)).flatMap (Section.books left) = l := by
  induction l with
  | nil => rfl
  | cons x l ih =>
      rw [List.map_cons, List.flatMap_cons, books_work (h x List.mem_cons_self),
        ih fun y hy => h y (List.mem_cons_of_mem x hy), List.singleton_append]

theorem exec_work {who : Who} {x : Pc} (h : ∀ k b, x ≠ .dropBox k b) :
    exec sh (.work who x) ms = (Registry.exec sh.registry x (!sh.stopped)).map fun e =>
      { shared := { sh with registry := e.shared, queue := sh.queue ++ e.spawn.flatten }
        next := (e.next ++ if leases x then ms.map Pc.get else []).map (.work who) } := by
  cases x with
  | dropBox k b => exact absurd rfl (h k b)
  | _ => rfl

/-- What is not in the books may come and go. -/
theorem Accounts.of_same {sh' : Bridge} {x : Section} (h : Accounts sh (x ::ₘ others))
    (hregistry : sh'.registry = sh.registry) (hqueue : sh'.queue = sh.queue)
    (hdropped : sh'.dropped = sh.dropped) (hleft : sh'.left = sh.left) (hx : x.books sh.left = [])
    {next : List Section} (hnext : ∀ y ∈ next, y.books sh.left = []) :
    Accounts sh' (↑next + others) := by
  have hbooks : books sh' (↑next + others) = books sh (x ::ₘ others) := by
    rw [books_cons, hx, Multiset.coe_nil, zero_add, books, books, hqueue, hdropped, hleft,
      Multiset.add_bind, Multiset.coe_bind, List.flatMap_eq_nil_iff.mpr hnext, Multiset.coe_nil,
      zero_add]
  refine ⟨?_, fun y hy => h.jobs y (hqueue ▸ hy), fun jobs hmem y hy => ?_,
    fun y hy => h.dropped y (hdropped ▸ hy)⟩
  · rw [hbooks, hregistry, hleft]
    exact h.ledger
  · rcases Multiset.mem_add.mp hmem with hmem | hmem
    · rw [show jobs = [] from hnext _ (Multiset.mem_coe.mp hmem)] at hy
      cases hy
    · exact h.dying jobs (Multiset.mem_cons_of_mem hmem) y hy

theorem job_spawn {sh : Shared} {x : Pc} {accepted : Bool} {e : Effect Shared Pc}
    (hexec : Registry.exec sh x accepted = some e) : ∀ y ∈ e.spawn.flatten, job y = true := by
  intro y hy
  rcases exec_spawn hexec with hnone | ⟨-, ⟨k, -, hspawn⟩ | ⟨k, m, epoch, -, hspawn⟩⟩
  · rw [hnone] at hy
    cases hy
  all_goals
    rw [hspawn, List.flatten_singleton, List.mem_singleton] at hy
    rw [hy]
    rfl

/-! ### Step by step -/

/-- **Step**, of a section of the registry. -/
theorem Accounts.work {who : Who} {x : Pc} {accepted : Bool} {e : Effect Shared Pc}
    (h : Accounts sh (.work who x ::ₘ others)) (hx : ∀ k b, x ≠ .dropBox k b)
    (hexec : Registry.exec sh.registry x accepted = some e) :
    Accounts { sh with registry := e.shared, queue := sh.queue ++ e.spawn.flatten }
      (↑((e.next ++ ms.map Pc.get).map (Section.work who)) + others) := by
  have hledger := h.ledger
  rw [books_cons, books_work fun k b heq => absurd heq (hx k b), Multiset.coe_singleton,
    Multiset.singleton_add] at hledger
  have hplain : ∀ y ∈ e.next ++ ms.map Pc.get, ∀ k b, y = .dropBox k b →
      sh.left.lookup b = none := by
    rintro y hy k b rfl
    rcases List.mem_append.mp hy with hy | hy
    · cases exec_leads hexec hy with
      | posted =>
          rw [Option.eq_none_iff_forall_ne_some]
          intro k' hk'
          exact absurd (hledger.lone _ _ hk').1 (Nat.lt_irrefl _)
      | kept => exact hledger.kept _ _ (Multiset.mem_cons_self _ _)
    · obtain ⟨m, -, heq⟩ := List.mem_map.mp hy
      cases heq
  refine ⟨?_, ?_, ?_, h.dropped⟩
  · have hbooks : books { sh with registry := e.shared, queue := sh.queue ++ e.spawn.flatten }
        (↑((e.next ++ ms.map Pc.get).map (Section.work who)) + others) =
          ↑(ms.map Pc.get) + (e.made + books sh others) := by
      rw [books, books, Multiset.add_bind, Multiset.coe_bind, books_works hplain, Effect.made]
      simp only [← Multiset.coe_add]
      abel
    rw [hbooks]
    exact (Ledger.gets ms).mpr (hledger.exec hexec)
  · intro y hy
    rcases List.mem_append.mp hy with hy | hy
    · exact h.jobs y hy
    · exact job_spawn hexec y hy
  · intro jobs hmem y hy
    rcases Multiset.mem_add.mp hmem with hmem | hmem
    · obtain ⟨z, -, heq⟩ := List.mem_map.mp (Multiset.mem_coe.mp hmem)
      cases heq
    · exact h.dying jobs (Multiset.mem_cons_of_mem hmem) y hy

/-- **Step**, of an owner of a box. -/
theorem Accounts.leave {who : Who} {k b : Nat} (h : Accounts sh (.work who (.dropBox k b) ::ₘ others)) :
    Accounts { sh with registry := leaveBox sh.registry b } others := by
  have hledger := h.ledger
  rw [books_cons, Section.books] at hledger
  refine ⟨?_, h.jobs, fun jobs hmem => h.dying jobs (Multiset.mem_cons_of_mem hmem), h.dropped⟩
  cases hleft : sh.left.lookup b with
  | none =>
      rw [hleft, Multiset.coe_singleton, Multiset.singleton_add] at hledger
      exact hledger.leave
  | some k' =>
      rw [hleft, Multiset.coe_singleton, Multiset.singleton_add] at hledger
      exact hledger.release (hledger.lone b k' hleft).2

/-- A box has two owners at the most: its job, and `finished`. -/
theorem exists_dropBox {sh : Shared} {left : List (Nat × Nat)} {k b : Nat} {q : Multiset Pc}
    (h : Ledger sh left (.release k b ::ₘ q)) (hlast : (sh.boxes b).owners ≠ 1) :
    (sh.boxes b).owners = 2 ∧ ∃ j q', q = .dropBox j b ::ₘ q' ∧ carried Pc.owns b q' = 0 := by
  have howners := h.inv.boxes.owners b
  rw [carried_cons, if_pos (show (Pc.release k b).owns = some b from rfl)] at howners
  have htwo := h.owners b
  have hone : carried Pc.owns b q = 1 := by omega
  refine ⟨by omega, ?_⟩
  obtain ⟨y, hy, howns⟩ := carried_pos.mp (hone ▸ Nat.one_pos : 0 < carried Pc.owns b q)
  obtain ⟨q', rfl⟩ := Multiset.exists_cons_of_mem hy
  have hrest : carried Pc.owns b q' = 0 := by
    rw [carried_cons, if_pos howns] at hone
    omega
  have hempties := (h.inv.full rfl).2.2
  cases y with
  | dropBox j b' =>
      cases howns
      exact ⟨j, q', rfl, hrest⟩
  | release j b' =>
      cases howns
      exact absurd (hempties j) (Nat.ne_of_gt (carried_pos.mpr ⟨_, hy, rfl⟩))
  | keep j b' =>
      cases howns
      exact absurd (hempties j) (Nat.ne_of_gt (carried_pos.mpr ⟨_, hy, rfl⟩))
  | _ => cases howns

theorem books_left {left : List (Nat × Nat)} {k b : Nat} {x : Section}
    (h : ∀ y ∈ x.books left, y.owns ≠ some b) :
    x.books ((b, k) :: left) = x.books left := by
  cases x with
  | work who y =>
      cases y with
      | dropBox j b' =>
          have hne : (b' == b) = false := by
            rw [beq_eq_false_iff_ne]
            rintro rfl
            rw [Section.books] at h
            split at h <;> exact h _ List.mem_cons_self rfl
          rw [Section.books, Section.books, List.lookup_cons, hne]
      | _ => rfl
  | _ => rfl

theorem mem_books_dropBox {left : List (Nat × Nat)} {j b : Nat} {x : Section} {p : Multiset Section}
    (hjobs : ∀ jobs, x = .dropping jobs → ∀ y ∈ jobs, job y = true) (hx : x ∈ p)
    (hmem : Pc.dropBox j b ∈ x.books left) :
    ∃ who, Section.work who (.dropBox j b) ∈ p ∧ left.lookup b = none := by
  cases x with
  | work who y =>
      cases y with
      | dropBox j' b' =>
          rw [Section.books] at hmem
          split at hmem
          · cases List.mem_singleton.mp hmem
          · rename_i hnone
            cases List.mem_singleton.mp hmem
            exact ⟨who, hx, hnone⟩
      | _ => cases List.mem_singleton.mp hmem
  | closing dead =>
      obtain ⟨k, -, heq⟩ := List.mem_map.mp hmem
      cases heq
  | dropping jobs => cases hjobs jobs rfl _ hmem
  | _ => cases hmem

/-- **Step**, of a job that dies. -/
theorem Accounts.die {x : Pc} {jobs : List Pc} (h : Accounts sh (.dropping (x :: jobs) ::ₘ others)) :
    Accounts (sh.die x) (.dropping jobs ::ₘ others) := by
  have hjobs := h.dying _ (Multiset.mem_cons_self _ _)
  have hx := hjobs x List.mem_cons_self
  have hdying : ∀ jobs', .dropping jobs' ∈ Section.dropping jobs ::ₘ others →
      ∀ y ∈ jobs', job y = true := by
    intro jobs' hmem y hy
    rcases Multiset.mem_cons.mp hmem with heq | hmem
    · cases heq
      exact hjobs y (List.mem_cons_of_mem x hy)
    · exact h.dying jobs' (Multiset.mem_cons_of_mem hmem) y hy
  have hledger := h.ledger
  rw [books_cons, Section.books, ← Multiset.cons_coe, Multiset.cons_add] at hledger
  have hmoved : x.holds = none → Accounts { sh with dropped := x :: sh.dropped }
      (.dropping jobs ::ₘ others) := by
    intro hholds
    refine ⟨?_, h.jobs, hdying, ?_⟩
    · have hbooks : books { sh with dropped := x :: sh.dropped } (.dropping jobs ::ₘ others) =
          x ::ₘ (↑jobs + books sh others) := by
        rw [books_cons, books, books, Section.books]
        simp only [← Multiset.coe_add, ← Multiset.cons_coe, ← Multiset.singleton_add]
        abel
      rw [hbooks]
      exact hledger
    · intro y hy
      rcases List.mem_cons.mp hy with rfl | hy
      · exact ⟨hx, hholds⟩
      · exact h.dropped y hy
  cases x with
  | release k b =>
      by_cases hlast : (sh.registry.boxes b).owners = 1
      · have hsame : sh.die (.release k b) = { sh with registry := leaveBox sh.registry b } := by
          unfold Bridge.die
          dsimp only
          rw [if_pos (beq_iff_eq.mpr hlast)]
        rw [hsame]
        refine ⟨?_, h.jobs, hdying, h.dropped⟩
        rw [books_cons]
        exact hledger.release (Nat.le_of_eq hlast)
      · have hsame : sh.die (.release k b) =
            { sh with registry := leaveBox sh.registry b, left := (b, k) :: sh.left } := by
          unfold Bridge.die
          dsimp only
          rw [if_neg (by simpa using hlast)]
        obtain ⟨htwo, j, q, hq, hrest⟩ := exists_dropBox hledger hlast
        -- the other owner is the callback that posted the release
        obtain ⟨who, hz⟩ : ∃ who, Section.work who (.dropBox j b) ∈ others ∧
            sh.left.lookup b = none := by
          have hmem : Pc.dropBox j b ∈ ↑jobs + books sh others := hq ▸ Multiset.mem_cons_self _ _
          rcases Multiset.mem_add.mp hmem with hmem | hmem
          · cases hjobs _ (List.mem_cons_of_mem _ (Multiset.mem_coe.mp hmem))
          rcases Multiset.mem_add.mp hmem with hmem | hmem
          · obtain ⟨z, hz, hmem⟩ := Multiset.mem_bind.mp hmem
            exact mem_books_dropBox (fun jobs' heq => h.dying jobs'
              (Multiset.mem_cons_of_mem (heq ▸ hz))) hz (Multiset.mem_coe.mp hmem)
          · rcases List.mem_append.mp (Multiset.mem_coe.mp hmem) with hmem | hmem
            · cases h.jobs _ hmem
            · cases (h.dropped _ hmem).1
        obtain ⟨rest, rfl⟩ := Multiset.exists_cons_of_mem hz.1
        rw [books_cons, Section.books, hz.2, Multiset.coe_singleton, Multiset.singleton_add,
          Multiset.add_cons, Multiset.cons_inj_right] at hq
        have hbooks : books { sh with registry := leaveBox sh.registry b, left := (b, k) :: sh.left }
            (.dropping jobs ::ₘ .work who (.dropBox j b) ::ₘ rest) = .release k b ::ₘ q := by
          have hsame : rest.bind (fun y => (y.books ((b, k) :: sh.left) : Multiset Pc)) =
              rest.bind fun y => (y.books sh.left : Multiset Pc) := by
            apply Multiset.bind_congr
            intro y hy
            rw [books_left fun z hz' => ?_]
            rw [← hq, carried_eq_zero] at hrest
            apply hrest z
            apply Multiset.mem_add.mpr
            right
            exact Multiset.mem_add.mpr (.inl (Multiset.mem_bind.mpr ⟨y, hy, Multiset.mem_coe.mpr hz'⟩))
          rw [books_cons, books_cons, books, hsame, Section.books, Section.books, List.lookup_cons_self,
            ← hq, books]
          simp only [Multiset.coe_singleton, Multiset.singleton_add, Multiset.add_cons]
        rw [books_cons, Section.books, hz.2, Multiset.coe_singleton, Multiset.singleton_add,
          Multiset.add_cons, hq] at hledger
        rw [hsame]
        refine ⟨?_, h.jobs, hdying, h.dropped⟩
        rw [hbooks]
        exact hledger.leaveLeft htwo
  | invoke | get | replace => exact hmoved rfl
  | _ => cases hx

/-- **Step**, of `close`. -/
theorem Accounts.close (h : Accounts sh (.close ::ₘ others)) :
    Accounts { sh with registry := (Registry.close sh.registry).shared }
      (.closing ((Registry.close sh.registry).next.filterMap Pc.holds) ::ₘ others) := by
  have hledger : Ledger sh.registry sh.left (.close ::ₘ books sh others) := by
    apply (Ledger.idle idle_close rfl fun k b heq => by cases heq).mpr
    have hbooks := h.ledger
    rw [books_cons] at hbooks
    simpa [Section.books] using hbooks
  obtain ⟨dead, hdead, -⟩ := hledger.inv.close
  have hnext : ((Registry.close sh.registry).next.filterMap Pc.holds).map Pc.drop =
      (Registry.close sh.registry).next := by
    rw [hdead, List.filterMap_map]
    simp [Pc.holds, Function.comp_def]
  refine ⟨?_, h.jobs, ?_, h.dropped⟩
  · rw [books_cons, Section.books, hnext]
    have hstep := hledger.exec (show Registry.exec sh.registry .close true = some _ from rfl)
    rw [Effect.made, show (Registry.close sh.registry).spawn = [] from rfl, List.flatten_nil,
      List.append_nil] at hstep
    exact hstep
  · intro jobs hmem
    rcases Multiset.mem_cons.mp hmem with heq | hmem
    · cases heq
    · exact h.dying jobs (Multiset.mem_cons_of_mem hmem)

/-- **Step**, of a client that `close` lets go of. -/
theorem Accounts.closing {k : Nat} {dead : List Nat} (h : Accounts sh (.closing (k :: dead) ::ₘ others)) :
    Accounts { sh with registry := sh.registry.dropRef k } (.closing dead ::ₘ others) := by
  refine ⟨?_, h.jobs, ?_, h.dropped⟩
  · have hledger := h.ledger
    rw [books_cons, Section.books, List.map_cons, ← Multiset.cons_coe, Multiset.cons_add] at hledger
    have hstep := hledger.exec (show Registry.exec sh.registry (.drop k) true = some _ from rfl)
    have hrest : Ledger (sh.registry.dropRef k) sh.left (↑(dead.map Pc.drop) + books sh others) := by
      simpa [Effect.made] using hstep
    rw [books_cons]
    exact hrest
  · intro jobs hmem
    rcases Multiset.mem_cons.mp hmem with heq | hmem
    · cases heq
    · exact h.dying jobs (Multiset.mem_cons_of_mem hmem)

/-- **Step**, of the pump's `stop`. -/
theorem Accounts.stopPump (h : Accounts sh (.stopPump ::ₘ others)) :
    Accounts { sh with stopped := true, queue := [] } (.dropping sh.queue ::ₘ others) := by
  refine ⟨?_, (fun x hx => by cases hx), ?_, h.dropped⟩
  · have hbooks : books { sh with stopped := true, queue := [] } (.dropping sh.queue ::ₘ others) =
        books sh (.stopPump ::ₘ others) := by
      rw [books_cons, books_cons]
      show (sh.queue : Multiset Pc) + (_ + (([] ++ sh.dropped : List Pc) : Multiset Pc)) =
        (([] : List Pc) : Multiset Pc) + (_ + ((sh.queue ++ sh.dropped : List Pc) : Multiset Pc))
      rw [Multiset.coe_nil, zero_add, List.nil_append, ← Multiset.coe_add, add_left_comm]
    rw [hbooks]
    exact h.ledger
  · intro jobs hmem
    rcases Multiset.mem_cons.mp hmem with heq | hmem
    · cases heq
      exact h.jobs
    · exact h.dying jobs (Multiset.mem_cons_of_mem hmem)

/-- **Step.** -/
theorem Accounts.exec {x : Section} (h : Accounts sh (x ::ₘ others))
    (hexec : exec sh x ms = some e) : Accounts e.shared (e.made + others) := by
  have hone : ∀ {sh' : Bridge} {y : Section}, Accounts sh' (y ::ₘ others) →
      Accounts sh' (({ shared := sh', next := [y] } : Effect Bridge Section).made + others) := by
    intro sh' y hy
    simpa [Effect.made] using hy
  have hnone : ∀ {sh' : Bridge}, Accounts sh' others →
      Accounts sh' (({ shared := sh' } : Effect Bridge Section).made + others) := by
    intro sh' hy
    simpa [Effect.made] using hy
  have hover : ∀ {sh' : Bridge}, sh'.registry = sh.registry → sh'.queue = sh.queue →
      sh'.dropped = sh.dropped → sh'.left = sh.left → x.books sh.left = [] → Accounts sh' others := by
    intro sh' hregistry hqueue hdropped hleft hx
    have hsame : Accounts sh' (↑([] : List Section) + others) :=
      h.of_same hregistry hqueue hdropped hleft hx fun z hz => by cases hz
    rwa [Multiset.coe_nil, zero_add] at hsame
  have hflag : ∀ {sh' : Bridge} {y : Section}, sh'.registry = sh.registry → sh'.queue = sh.queue →
      sh'.dropped = sh.dropped → sh'.left = sh.left → x.books sh.left = [] → y.books sh.left = [] →
      Accounts sh' (y ::ₘ others) := by
    intro sh' y hregistry hqueue hdropped hleft hx hy
    have hsame : Accounts sh' (↑[y] + others) := h.of_same hregistry hqueue hdropped hleft hx
      fun z hz => by rw [List.mem_singleton.mp hz, hy]
    exact hsame
  cases x with
  -- a section of the registry: the last owner of a box is a case of its own
  | work who x =>
      by_cases hbox : ∃ k b, x = .dropBox k b
      · obtain ⟨k, b, rfl⟩ := hbox
        cases hexec
        exact hnone h.leave
      · rw [exec_work fun k b heq => hbox ⟨k, b, heq⟩] at hexec
        obtain ⟨e', he', rfl⟩ := Option.map_eq_some_iff.mp hexec
        have hstep : ∀ ms : List Bytes, Accounts _ (↑((e'.next ++ ms.map Pc.get).map (Section.work who)) + others) :=
          fun ms => h.work (fun k b heq => hbox ⟨k, b, heq⟩) he'
        rw [Effect.made, List.flatten_nil, List.append_nil]
        cases hlease : leases x with
        | true => exact hstep ms
        | false => exact hstep []
  | report k =>
      cases hexec
      exact hnone (hover rfl rfl rfl rfl rfl)
  | close =>
      cases hexec
      exact hone h.close
  | closing dead =>
      cases dead with
      | nil =>
          cases hexec
          exact hone (hflag rfl rfl rfl rfl rfl rfl)
      | cons k dead =>
          cases hexec
          exact hone h.closing
  | stopPump =>
      cases hexec
      exact hone h.stopPump
  | dropping jobs =>
      cases jobs with
      | nil =>
          cases hexec
          exact hone (hflag rfl rfl rfl rfl rfl rfl)
      | cons job jobs =>
          cases hexec
          exact hone h.die
  | joinPump | stopServer =>
      cases hexec
      exact hone (hflag rfl rfl rfl rfl rfl rfl)
  | reset =>
      cases hexec
      exact hnone (hover rfl rfl rfl rfl rfl)

theorem Ledger.of_now {sh : Shared} {left : List (Nat × Nat)} {q : Multiset Pc}
    (h : Ledger sh left q) (elapsed : Nat) :
    Ledger { sh with now := sh.now + elapsed } left q :=
  ⟨h.inv.tick elapsed, (Keeps.of_same rfl rfl rfl rfl).homes h.homes,
    ⟨h.gives.sections, h.gives.unreleased⟩, h.owners, h.lone, h.kept⟩

/-- A call is asked for, or answered: a section comes that gives nobody up. -/
theorem Ledger.asked {sh sh' : Shared} {left : List (Nat × Nat)} {q : Multiset Pc} {x : Pc}
    (h : Ledger sh left q) (hinv : Inv sh' (x ::ₘ q)) (hkeeps : Keeps sh sh')
    (hunreleased : sh'.unreleased = sh.unreleased) (hboxes : sh'.boxes = sh.boxes)
    (hmade : sh'.madeBoxes = sh.madeBoxes) (hgives : x.gives = none) : Ledger sh' left (x ::ₘ q) := by
  refine ⟨hinv, hkeeps.homes h.homes, ⟨?_, ?_⟩, ?_, ?_, ?_⟩
  · intro y hy k hk
    rcases Multiset.mem_cons.mp hy with rfl | hy
    · cases hgives.symm.trans hk
    · exact hkeeps.retired k (h.gives.sections y hy k hk)
  · intro k hk
    exact hkeeps.retired k (h.gives.unreleased k (hunreleased ▸ hk))
  · rw [hboxes]
    exact h.owners
  · rw [hboxes, hmade]
    exact h.lone
  · intro k b hmem
    rcases Multiset.mem_cons.mp hmem with rfl | hmem
    · cases hgives
    · exact h.kept k b hmem

/-- **Step**, of an entry point. -/
theorem Accounts.enter {ev : ShutdownEntry} (h : Accounts sh p) (henter : enter sh ev = some e) :
    Accounts e.shared (e.made + p) := by
  have hnone : ∀ {sh' : Bridge}, Accounts sh' p →
      Accounts sh' (({ shared := sh' } : Effect Bridge Section).made + p) := by
    intro sh' hy
    simpa [Effect.made] using hy
  have hone : ∀ {sh' : Bridge} {y : Section}, Accounts sh' (y ::ₘ p) →
      Accounts sh' (({ shared := sh', next := [y] } : Effect Bridge Section).made + p) := by
    intro sh' y hy
    simpa [Effect.made] using hy
  have hdying : ∀ {y : Section}, (∀ jobs, y ≠ .dropping jobs) → ∀ jobs, .dropping jobs ∈ y ::ₘ p →
      ∀ x ∈ jobs, job x = true := by
    intro y hy jobs hmem
    rcases Multiset.mem_cons.mp hmem with heq | hmem
    · exact absurd heq.symm (hy jobs)
    · exact h.dying jobs hmem
  cases ev with
  | tick elapsed =>
      cases henter
      exact hnone ⟨h.ledger.of_now elapsed, h.jobs, h.dying, h.dropped⟩
  | get m =>
      simp only [Shutdown.enter] at henter
      split at henter
      · cases henter
        refine hone ⟨?_, h.jobs, (hdying fun jobs heq => by cases heq), h.dropped⟩
        rw [books_cons]
        exact (Ledger.get m).mpr h.ledger
      · cases henter
  | call m =>
      simp only [Shutdown.enter] at henter
      split at henter
      · cases henter
        exact hnone h
      · cases henter
        refine hnone ⟨?_, ?_, h.dying, h.dropped⟩
        · have hasked := h.ledger.asked (h.ledger.inv.ask m) (.of_same rfl rfl rfl rfl) rfl rfl rfl rfl
          have hbooks : ∀ c, p.bind (fun x => (x.books sh.left : Multiset Pc)) +
              ↑(sh.queue ++ [Pc.invoke m c] ++ sh.dropped) = Pc.invoke m c ::ₘ books sh p := by
            intro c
            rw [books, ← Multiset.singleton_add]
            simp only [← Multiset.coe_add, Multiset.coe_singleton]
            abel
          rw [← hbooks] at hasked
          exact hasked
        · intro x hx
          rcases List.mem_append.mp hx with hx | hx
          · exact h.jobs x hx
          · rw [List.mem_singleton.mp hx]
            rfl
  | subscribe m =>
      cases henter
      apply hnone
      split
      · exact h
      · refine ⟨?_, ?_, h.dying, h.dropped⟩
        · have hbooks : p.bind (fun x => (x.books sh.left : Multiset Pc)) +
              ↑(sh.queue ++ [Pc.get m] ++ sh.dropped) = Pc.get m ::ₘ books sh p := by
            rw [books, ← Multiset.singleton_add]
            simp only [← Multiset.coe_add, Multiset.coe_singleton]
            abel
          have hget := (Ledger.get m).mpr h.ledger
          rw [← hbooks] at hget
          exact hget
        · intro x hx
          rcases List.mem_append.mp hx with hx | hx
          · exact h.jobs x hx
          · rw [List.mem_singleton.mp hx]
            rfl
  -- a job leaves the queue for a thread of the pump
  | take =>
      simp only [Shutdown.enter] at henter
      split at henter
      · cases henter
      · rename_i x queue hqueue
        split at henter
        · cases henter
        · cases henter
          have hjob := h.jobs x (hqueue ▸ List.mem_cons_self)
          refine hone ⟨?_, fun y hy => h.jobs y (hqueue ▸ List.mem_cons_of_mem x hy),
            (hdying fun jobs heq => by cases heq), h.dropped⟩
          have hledger := h.ledger
          rw [books, hqueue] at hledger
          have hplain : (Section.work .pump x).books sh.left = [x] := by
            apply books_work
            rintro k b rfl
            cases hjob
          have hbooks : books { sh with queue } (.work .pump x ::ₘ p) =
              p.bind (fun y => (y.books sh.left : Multiset Pc)) + ↑(x :: queue ++ sh.dropped) := by
            rw [books_cons, hplain, books, Multiset.coe_singleton, Multiset.singleton_add,
              ← Multiset.add_cons]
            rfl
          rw [hbooks]
          exact hledger
  | answer k call value err =>
      simp only [Shutdown.enter, Registry.enter] at henter
      split at henter
      · rename_i hok
        cases henter
        refine hone ⟨?_, h.jobs, (hdying fun jobs heq => by cases heq), h.dropped⟩
        rw [books_cons]
        exact h.ledger.asked (h.ledger.inv.answer hok.1 value err) (.of_same rfl rfl rfl rfl)
          rfl rfl rfl rfl
      · cases henter
  | report k =>
      simp only [Shutdown.enter] at henter
      split at henter
      · cases henter
        refine hone ⟨?_, h.jobs, (hdying fun jobs heq => by cases heq), h.dropped⟩
        rw [books_cons]
        simpa [Section.books] using h.ledger
      · cases henter
  | shutdown =>
      simp only [Shutdown.enter] at henter
      split at henter
      · cases henter
      · cases henter
        refine hone ⟨?_, h.jobs, (hdying fun jobs heq => by cases heq), h.dropped⟩
        rw [books_cons]
        show Ledger _ _ ((([] : List Pc) : Multiset Pc) + books sh p)
        rw [Multiset.coe_nil, zero_add]
        exact h.ledger

end JsonRpcBridge.Upstream.Registry.Shutdown
