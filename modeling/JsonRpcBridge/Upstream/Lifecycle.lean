import JsonRpcBridge.Upstream.Answers

/-!
# The life of a client

The sections of the registry keep its books, so they are kept in every run (`inv_of_run`).
`lifecycle` reads off them what the registry promises: about the epochs of a module's clients, the
counts of their calls, `done`, and when and where a client is destroyed.
-/

namespace JsonRpcBridge.Upstream.Registry

open Interleaving

variable {sh sh' : Shared} {p others : Multiset Pc}

/-! ## Sections

The step lemmas of `Books` and `Answers`, put together for each section of the source. -/

variable {e : Effect Shared Pc}

theorem Inv.get {m : Bytes} (h : Inv sh others) :
    Inv (get sh m).shared ((get sh m).made + others) := by
  unfold Registry.get
  by_cases hclosed : sh.closed = true
  · rw [if_pos hclosed]
    simpa [Effect.made] using h
  · rw [if_neg hclosed]
    obtain ⟨hI, hc, md, hmd, hcur⟩ := h.currentLocked m
    have hclient := hI.slots.current (by rw [hc]; simpa using hclosed) m md _ hmd hcur
    dsimp only
    rw [if_pos hclient]
    simpa [Effect.made] using hI.retain (hI.epochs.current m md _ hmd hcur).1

/-- A call that finds no client is answered at once. -/
theorem Inv.refused {m : Bytes} {c : Nat} (h : Inv sh (.invoke m c ::ₘ others)) :
    Inv sh (.done none c .null stopping ::ₘ others) := by
  refine ⟨h.epochs, h.slots, fun k => ?_, fun k => ?_, h.boxes.of_same rfl rfl (fun b => ?_)
    (fun t => ?_), h.calls.of_same rfl rfl rfl rfl (fun c => ?_) fun c => ?_⟩
  · have hrefs := h.refs k
    rwa [carried_cons_of_none rfl] at hrefs ⊢
  · have hflying := h.inFlight k
    rwa [outstanding, carried_cons_of_none rfl] at hflying ⊢
  · rw [carried_cons_of_none rfl, carried_cons_of_none rfl]
  · rw [carried_cons_of_none rfl, carried_cons_of_none rfl]
  · rw [carried_cons, carried_cons]
    rfl
  · rw [carried_cons_of_none rfl, carried_cons]
    exact Nat.le_add_right _ _

theorem Inv.invoke {m : Bytes} {c : Nat} (h : Inv sh (.invoke m c ::ₘ others)) :
    Inv (invoke sh m c).shared ((invoke sh m c).made + others) := by
  unfold Registry.invoke
  by_cases hclosed : sh.closed = true
  · rw [if_pos hclosed]
    simpa [Effect.made] using h.refused
  · rw [if_neg hclosed]
    obtain ⟨hI, hc, md, hmd, hcur⟩ := h.currentLocked m
    have hclient := hI.slots.current (by rw [hc]; simpa using hclosed) m md _ hmd hcur
    have hstarted := (hI.startCall (hI.epochs.current m md _ hmd hcur).1 hclient).sweep
    dsimp only
    rw [if_pos hclient]
    have hmade : ∀ (s : Shared) (l : List Nat) (x : Pc),
        ({ shared := s, next := l.map .drop ++ [x] } : Effect Shared Pc).made + others =
          ↑(l.map Pc.drop) + (x ::ₘ others) := by
      intro s l x
      simp only [Effect.made, List.flatten_nil, List.append_nil, ← Multiset.coe_add, add_assoc]
      rfl
    rw [hmade]
    exact hstarted

/-- The sections of a thread that releases references and goes on. -/
theorem made_releases {s : Shared} {dying : Bool} {old : Nat} {l : List Nat} {x : Pc} :
    ({ shared := s, next := (if dying then [Pc.drop old] else []) ++ l.map Pc.drop ++ [x] } :
      Effect Shared Pc).made + others =
      x ::ₘ (↑(l.map Pc.drop) + (↑((if dying then [old] else []).map Pc.drop) + others)) := by
  have hflat : ∀ first : List Pc, (↑(first ++ l.map Pc.drop ++ [x]) : Multiset Pc) + others =
      x ::ₘ (↑(l.map Pc.drop) + (↑first + others)) := by
    intro first
    rw [← Multiset.coe_add, ← Multiset.coe_add, Multiset.coe_singleton, ← Multiset.singleton_add x]
    abel
  rw [Effect.made]
  cases dying
  · simpa using hflat []
  · simpa using hflat [.drop old]

theorem Inv.replace {m : Bytes} {epoch : Nat} (h : Inv sh others) :
    Inv (replace sh m epoch).shared ((replace sh m epoch).made + others) := by
  have hsame : Inv sh (({ shared := sh } : Effect Shared Pc).made + others) := by
    simpa [Effect.made] using h
  unfold Registry.replace
  cases hmd : sh.modules m with
  | none => exact hsame
  | some md =>
      dsimp only
      cases hcur : md.current with
      | none => exact hsame
      | some old =>
          dsimp only
          by_cases hstale : (sh.closed || (sh.slots old).epoch != epoch) = true
          · rw [if_pos hstale]
            exact hsame
          · rw [if_neg hstale]
            have hopen : sh.closed = false := by
              simp only [Bool.or_eq_true, not_or, Bool.not_eq_true] at hstale
              exact hstale.1
            have hclient := h.slots.current hopen m md old hmd hcur
            have hswept := (h.replaceSlot hmd hcur hopen).sweep
            have hdying : (if (sh.slots old).inFlight = 0 then [old] else []) =
                if ((sh.slots old).inFlight == 0 && (sh.slots old).client) = true then [old]
                else [] := by
              rw [hclient]
              simp
            rw [hdying] at hswept
            rw [made_releases, Inv.idle (idle_onReplaced _ _)]
            exact hswept

theorem made_optional {s : Shared} {a b : Bool} {x y z : Pc} :
    ({ shared := s, next := (if a then [x] else []) ++ (if b then [y] else []) ++ [z] } :
      Effect Shared Pc).made + others =
      (↑(if b then [y] else [] : List Pc) + (↑(if a then [x] else [] : List Pc) + (z ::ₘ others)) :
        Multiset Pc) := by
  rw [Effect.made, List.flatten_nil, List.append_nil, ← Multiset.coe_add, ← Multiset.coe_add,
    Multiset.coe_singleton, ← Multiset.singleton_add z]
  abel

theorem Inv.finished {k c : Nat} {value : Json} {err : CallError}
    (h : Inv sh (.finished k c value err ::ₘ others)) :
    Inv (finished sh k c value err).shared ((finished sh k c value err).made + others) := by
  have hjudged := h.counted.judge k err
  obtain ⟨modules, hsame, -⟩ := judge_same (sh.setInFlight k ((sh.slots k).inFlight - 1)) k err
  have hslot : ((sh.setInFlight k ((sh.slots k).inFlight - 1)).judge k err).1.slots k =
      { sh.slots k with inFlight := (sh.slots k).inFlight - 1 } := by
    rw [hsame]
    exact Function.update_self ..
  unfold Registry.finished
  dsimp only
  rw [show sh.setSlot k { sh.slots k with inFlight := (sh.slots k).inFlight - 1 } =
    sh.setInFlight k ((sh.slots k).inFlight - 1) from rfl, made_optional]
  have hposted : ∀ {s : Shared} {q : Multiset Pc} (now : Bool), Inv s q →
      Inv s (↑(if now then [.postReplace k (sh.slots k).module (sh.slots k).epoch] else [] :
        List Pc) + q) := by
    intro s q now hq
    cases now with
    | false => simpa using hq
    | true => exact (Inv.idle (idle_postReplace _ _ _)).mpr hq
  apply hposted
  by_cases hdying : ((sh.slots k).retired && (sh.slots k).inFlight - 1 == 0 &&
      (sh.slots k).client) = true
  · rw [if_pos hdying, if_pos hdying]
    simp only [Bool.and_eq_true, beq_iff_eq] at hdying
    exact hjudged.moveOut (by rw [hslot]; exact hdying.1.1) (by rw [hslot]; exact hdying.1.2)
      (by rw [hslot]; exact hdying.2)
  · rw [if_neg hdying, if_neg hdying]
    simpa using hjudged

/-! ### All sections and all calls -/

/-- **Step**, of a section. -/
theorem Inv.exec {x : Pc} {accepted : Bool} (h : Inv sh (x ::ₘ others))
    (hexec : exec sh x accepted = some e) : Inv e.shared (e.made + others) := by
  have hone : ∀ {s : Shared} {y : Pc} {q : Multiset Pc}, Inv s (y ::ₘ q) →
      Inv s (({ shared := s, next := [y] } : Effect Shared Pc).made + q) := by
    intro s y q hq
    simpa [Effect.made] using hq
  have hnone : ∀ {s : Shared} {q : Multiset Pc}, Inv s q →
      Inv s (({ shared := s } : Effect Shared Pc).made + q) := by
    intro s q hq
    simpa [Effect.made] using hq
  cases x with
  | get m =>
      cases hexec
      exact ((Inv.idle (idle_get m)).mp h).get
  | invoke m c =>
      cases hexec
      exact h.invoke
  | submit k c =>
      cases hexec
      exact hone h.submit
  | replace m epoch =>
      cases hexec
      exact ((Inv.idle (idle_replace m epoch)).mp h).replace
  | onReplaced m epoch =>
      cases hexec
      exact hnone ((Inv.idle (idle_onReplaced m epoch)).mp h)
  -- every client that the registry holds goes to the thread that closes
  | close =>
      cases hexec
      obtain ⟨l, hnext, hI⟩ := ((Inv.idle idle_close).mp h).close
      have hmade : (Registry.close sh).made = ↑(l.map Pc.drop) := by
        rw [Effect.made, hnext]
        exact congrArg _ (List.append_nil _)
      rw [hmade]
      exact hI
  | drop k =>
      cases hexec
      exact hnone h.drop
  | release k b =>
      cases hexec
      obtain ⟨hfull, rfl, -⟩ := h.full rfl
      rw [if_pos hfull]
      exact hnone h.release
  | finished k c value err =>
      cases hexec
      exact h.finished
  | postRelease k =>
      obtain ⟨hposted, hrefused⟩ := h.post
      cases accepted with
      | true =>
          cases hexec
          simpa [Effect.made, ← Multiset.cons_coe] using hposted
      | false =>
          cases hexec
          exact hone hrefused
  | keep k b =>
      cases hexec
      obtain ⟨hfull, rfl, -⟩ := h.full rfl
      rw [if_pos hfull]
      exact hone h.keep
  | dropBox k b =>
      cases hexec
      exact hnone h.dropBox.1
  | postReplace k m epoch =>
      have hidle := (Inv.idle (idle_postReplace k m epoch)).mp h
      cases accepted with
      | true =>
          cases hexec
          have hreplace := (Inv.idle (idle_replace m epoch)).mpr hidle
          simpa [Effect.made] using hreplace
      | false =>
          cases hexec
          exact hnone hidle
  | done inside c value err =>
      cases hexec
      exact hnone h.done

/-- **Step**, of an entry point. -/
theorem Inv.enter {ev : RegistryEntry} (h : Inv sh p) (henter : enter sh ev = some e) :
    Inv e.shared (e.made + p) := by
  cases ev with
  | tick elapsed =>
      cases henter
      simpa [Effect.made] using h.tick elapsed
  | get m =>
      cases henter
      simpa [Effect.made] using (Inv.idle (idle_get m)).mpr h
  | invoke m =>
      cases henter
      simpa [Effect.made] using h.ask m
  | replace m epoch =>
      cases henter
      simpa [Effect.made] using (Inv.idle (idle_replace m epoch)).mpr h
  | close =>
      cases henter
      simpa [Effect.made] using (Inv.idle idle_close).mpr h
  | answer k c value err =>
      simp only [Registry.enter] at henter
      split at henter
      · rename_i hok
        cases henter
        simpa [Effect.made] using h.answer hok.1 value err
      · cases henter

theorem inv_start : Inv start.shared start.pending where
  epochs := ⟨fun _ _ _ hm => (nomatch hm), fun _ hk => (nomatch hk), fun _ _ _ hj => (nomatch hj)⟩
  slots := ⟨fun _ _ => ⟨rfl, rfl⟩, fun _ _ _ _ hm => (nomatch hm), fun _ hk => (nomatch hk),
    fun _ hk => (nomatch hk), List.nodup_nil⟩
  refs _ := rfl
  inFlight _ := rfl
  boxes := ⟨fun _ => rfl, fun _ _ => rfl, fun _ _ => rfl⟩
  calls := ⟨fun _ => rfl, fun _ hc => (nomatch hc)⟩

/-- **Run.** -/
theorem inv_of_run {s : State Shared Pc} {G : Guard Shared Pc Bool RegistryEntry}
    (h : Run registry G start s) : Inv s.shared s.pending :=
  Run.invariant (I := Inv) inv_start (fun hI _ hexec => hI.exec hexec)
    (fun hI _ henter => hI.enter henter) h

/-! ## Who destroys a client

The use count of a client falls in two sections only, and neither is part of its own callback. -/

theorem refs_currentLocked (h : Inv sh p) (m : Bytes) (k : Nat) :
    sh.refs k ≤ (sh.currentLocked m).1.refs k := by
  unfold Shared.currentLocked
  dsimp only
  split
  · exact Nat.le_refl _
  · show sh.refs k ≤ Function.update sh.refs sh.made 1 k
    by_cases hk : k = sh.made
    · subst hk
      rw [(h.slots.fresh sh.made (Nat.le_refl _)).1]
      exact Nat.zero_le _
    · rw [Function.update_of_ne hk]

theorem refs_retain (sh : Shared) (k' k : Nat) : sh.refs k ≤ (sh.setRefs k' (sh.refs k' + 1)).refs k := by
  show sh.refs k ≤ Function.update sh.refs k' _ k
  by_cases hk : k = k'
  · subst hk
    rw [Function.update_self]
    exact Nat.le_succ _
  · rw [Function.update_of_ne hk]

/-- A client loses a reference where one goes out of scope, or in the job of its release. -/
theorem refs_exec {x : Pc} {accepted : Bool} (h : Inv sh (x ::ₘ others))
    (hexec : exec sh x accepted = some e) (k : Nat) :
    sh.refs k ≤ e.shared.refs k ∨ x = .drop k ∨ ∃ b, x = .release k b := by
  cases x with
  | get m =>
      cases hexec
      left
      unfold Registry.get
      dsimp only
      split
      · exact Nat.le_refl _
      · split
        · exact (refs_currentLocked h m k).trans (refs_retain _ _ _)
        · exact refs_currentLocked h m k
  | invoke m c =>
      cases hexec
      left
      unfold Registry.invoke
      dsimp only
      split
      · exact Nat.le_refl _
      · split
        · exact (refs_currentLocked h m k).trans
            (refs_retain (sh.currentLocked m).1 (sh.currentLocked m).2 k)
        · exact refs_currentLocked h m k
  | replace m epoch =>
      cases hexec
      left
      unfold Registry.replace
      cases sh.modules m with
      | none => exact Nat.le_refl _
      | some md =>
          dsimp only
          cases md.current with
          | none => exact Nat.le_refl _
          | some old =>
              dsimp only
              split
              · exact Nat.le_refl _
              · show sh.refs k ≤ Function.update sh.refs sh.made 1 k
                -- the count of a new client begins at one
                by_cases hk : k = sh.made
                · subst hk
                  rw [(h.slots.fresh sh.made (Nat.le_refl _)).1]
                  exact Nat.zero_le _
                · rw [Function.update_of_ne hk]
  | drop k' =>
      cases hexec
      by_cases hk : k = k'
      · exact .inr (.inl (by rw [hk]))
      · left
        show sh.refs k ≤ Function.update sh.refs k' _ k
        rw [Function.update_of_ne hk]
  | release k' b =>
      cases hexec
      obtain ⟨hfull, rfl, -⟩ := h.full rfl
      by_cases hk : k = (sh.boxes b).client
      · exact .inr (.inr ⟨b, by rw [hk]⟩)
      · left
        rw [if_pos hfull]
        -- the box is emptied first, so that dropping it takes nothing more
        have hdropped : ((sh.setBox b { sh.boxes b with full := false }).dropRef
            (sh.boxes b).client).dropBox b =
              ((sh.setBox b { sh.boxes b with full := false }).dropRef
                (sh.boxes b).client).setBox b
                { sh.boxes b with full := false, owners := (sh.boxes b).owners - 1 } := by
          unfold Shared.dropBox
          simp [Shared.dropRef, Shared.setRefs, Shared.setBox]
        rw [hdropped]
        show sh.refs k ≤ Function.update sh.refs _ _ k
        rw [Function.update_of_ne hk]
  | finished k' c value err =>
      cases hexec
      left
      obtain ⟨modules, hsame, -⟩ := judge_same (sh.setInFlight k' ((sh.slots k').inFlight - 1)) k' err
      have hrefs : ((sh.setInFlight k' ((sh.slots k').inFlight - 1)).judge k' err).1.refs =
          sh.refs := by
        rw [hsame]
        rfl
      unfold Registry.finished
      dsimp only
      rw [show sh.setSlot k' { sh.slots k' with inFlight := (sh.slots k').inFlight - 1 } =
        sh.setInFlight k' ((sh.slots k').inFlight - 1) from rfl]
      split
      · show sh.refs k ≤ (Shared.judge _ k' err).1.refs k
        rw [hrefs]
      · rw [hrefs]
  | postRelease k' =>
      left
      cases accepted with
      | true =>
          cases hexec
          exact Nat.le_refl _
      | false =>
          cases hexec
          exact Nat.le_refl _
  | dropBox k' b =>
      cases hexec
      left
      rw [h.dropBox.2]
  | submit | onReplaced | close | keep | postReplace | done =>
      cases hexec
      exact .inl (Nat.le_refl _)

theorem refs_enter {ev : RegistryEntry} (henter : enter sh ev = some e) : e.shared.refs = sh.refs := by
  cases ev with
  | answer k c value err =>
      simp only [Registry.enter] at henter
      split at henter
      · cases henter
        rfl
      · cases henter
  | _ =>
      cases henter
      rfl

/-- The move destroys client `k`. -/
def Destroys (s s' : State Shared Pc) (k : Nat) : Prop :=
  0 < s.shared.refs k ∧ s'.shared.refs k = 0

theorem destroyer {s s' : State Shared Pc} {mv : Move Bool RegistryEntry}
    (hI : Inv s.shared s.pending) (hstep : registry.step s mv = some s') {k : Nat}
    (hk : Destroys s s' k) : s'.shared.made = s.shared.made ∧
      ∃ i accepted x, mv = .run i accepted ∧ s.head i = some x ∧
        (x = .drop k ∨ ∃ b, x = .release k b) := by
  obtain ⟨hpos, hzero⟩ := hk
  cases mv with
  | enter ev =>
      obtain ⟨e, henter, hs, -⟩ := Program.step_enter hstep
      rw [hs, refs_enter henter] at hzero
      omega
  | run i accepted =>
      obtain ⟨x, e, others, hhead, hexec, hp, hs, -⟩ := Program.step_run hstep
      rw [hp] at hI
      rw [hs] at hzero ⊢
      have hmade : ∀ (sh : Shared) (b : Nat), (sh.dropBox b).made = sh.made := by
        intro sh b
        unfold Shared.dropBox
        dsimp only
        split <;> rfl
      rcases refs_exec hI hexec k with hle | rfl | ⟨b, rfl⟩
      · omega
      · cases hexec
        exact ⟨rfl, i, accepted, _, rfl, hhead, .inl rfl⟩
      · cases hexec
        refine ⟨?_, i, accepted, _, rfl, hhead, .inr ⟨b, rfl⟩⟩
        dsimp only
        rw [hmade]
        split <;> rfl

/-! ## The promises

For every state of every run, from the books, and for every move that destroys a client. -/

/-- What the registry promises of a state, and of every move from it. -/
structure Lifecycle (s : State Shared Pc) : Prop where
  /-- The epochs of one module's clients strictly increase. -/
  increasing : ∀ i j, i < j → j < s.shared.made →
    (s.shared.slots i).module = (s.shared.slots j).module →
    (s.shared.slots i).epoch < (s.shared.slots j).epoch
  /-- At most one of them is not retired. -/
  current : ∀ i j, i < s.shared.made → j < s.shared.made →
    (s.shared.slots i).module = (s.shared.slots j).module →
    (s.shared.slots i).retired = false → (s.shared.slots j).retired = false → i = j
  inFlight : ∀ k, (s.shared.slots k).inFlight = outstanding s.shared s.pending k
  /-- No `done` runs twice, and that of an answered call has run when its callback is over. -/
  once : ∀ c, s.shared.done.count c ≤ 1
  answered : ∀ c, c ∈ s.shared.answered → (∀ x ∈ s.pending, x.answering? ≠ some c) →
    s.shared.done.count c = 1
  /-- A client is destroyed when none of its calls is outstanding or it is past its deadline, both
  after it was replaced, or else by `close`. -/
  destroyed : ∀ mv s', registry.step s mv = some s' → ∀ k, Destroys s s' k →
    s'.shared.closed = true ∨ (s'.shared.slots k).retired = true ∧
      (outstanding s'.shared s'.pending k = 0 ∨
        (s'.shared.slots k).retiredAt + kRetiredDeadline ≤ s'.shared.now)
  /-- No client is destroyed from within one of its callbacks. -/
  outside : ∀ i accepted s', registry.step s (.run i accepted) = some s' → ∀ k, Destroys s s' k →
    ∀ x, s.head i = some x → x.inside? ≠ some k

theorem Inv.once (h : Inv sh p) (c : Nat) : sh.done.count c ≤ 1 := by
  have honce := h.calls.once c
  split at honce <;> omega

theorem Inv.answered (h : Inv sh p) {c : Nat} (hc : c ∈ sh.answered)
    (hover : ∀ x ∈ p, x.answering? ≠ some c) : sh.done.count c = 1 := by
  have hpos := h.calls.answered c hc
  rw [carried_of_forall hover] at hpos
  have hle := h.once c
  omega

/-- **The life of a client**, in every run. -/
theorem lifecycle {s : State Shared Pc} (h : Run registry Guard.any start s) : Lifecycle s := by
  have hI := inv_of_run h
  refine ⟨hI.epochs.increasing, fun i j hi hj hsame hri hrj => ?_, hI.inFlight, hI.once,
    fun c hc hover => hI.answered hc hover, fun mv s' hstep k hk => ?_,
    fun i accepted s' hstep k hk x hx hinside => ?_⟩
  · obtain ⟨md, hmd, -, hcur⟩ := hI.epochs.filed i hi
    obtain ⟨md', hmd', -, hcur'⟩ := hI.epochs.filed j hj
    rw [← hsame, hmd] at hmd'
    obtain rfl := Option.some.inj hmd'
    exact Option.some.inj ((hcur hri).symm.trans (hcur' hrj))
  · have hrun : Run registry Guard.any start s' := by
      refine h.move ?_ hstep
      cases mv with
      | run i ch => exact fun _ _ => trivial
      | enter ev => exact trivial
    have hI' := inv_of_run hrun
    -- a client without references is in no slot
    have hclient : (s'.shared.slots k).client = false := by
      have hrefs := hI'.refs k
      rw [hk.2] at hrefs
      by_contra hclient
      rw [Bool.not_eq_false] at hclient
      rw [if_pos hclient] at hrefs
      omega
    have hmade : k < s'.shared.made := by
      rw [(destroyer hI hstep hk).1]
      by_contra hle
      have hzero := (hI.slots.fresh k (by omega)).1
      exact Nat.ne_of_gt hk.1 hzero
    rcases hI'.slots.released k hmade hclient with hclosed | ⟨hret, hidle | hexp⟩
    · exact .inl hclosed
    · refine .inr ⟨hret, .inl ?_⟩
      have hcount := hI'.inFlight k
      omega
    · exact .inr ⟨hret, .inr (of_decide_eq_true hexp)⟩
  · obtain ⟨-, j, accepted', y, hmv, hhead, hy⟩ := destroyer hI hstep hk
    cases hmv
    obtain rfl : x = y := Option.some.inj (hx.symm.trans hhead)
    rcases hy with rfl | ⟨b, rfl⟩
    · cases hinside
    · cases hinside

/-- A call is started, its client is replaced, and the call answered: the release of the client is
queued. -/
def replacedRun : List (Move Bool RegistryEntry) :=
  [.enter (.invoke (str "m")), .run 0 true, .run 0 true, .run 0 true,
   .enter (.replace (str "m") 1), .run 1 true, .run 1 true,
   .enter (.answer 0 0 .null {}), .run 2 true, .run 2 true, .run 2 true, .run 2 true]

theorem lifecycle_replaced :
    ∃ s s', Run registry Guard.any start s ∧ registry.step s (.run 3 true) = some s' ∧
      Destroys s s' 0 ∧ s.shared.answered = [0] ∧ Lifecycle s := by
  obtain ⟨s, hs⟩ : ∃ s, registry.replay start replacedRun = some s := ⟨_, rfl⟩
  have hrun := Run.replay .start hs
  obtain ⟨s', hstep⟩ : ∃ s', registry.step s (.run 3 true) = some s' := by
    cases hs
    exact ⟨_, rfl⟩
  refine ⟨s, s', hrun, hstep, ?_, ?_, lifecycle hrun⟩
  · cases hs
    cases hstep
    exact ⟨by decide, by decide⟩
  · cases hs
    rfl

end JsonRpcBridge.Upstream.Registry
