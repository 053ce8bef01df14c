import LotusKit.Frame.Board

/-! Every step of every thread keeps the draw lists in order. -/

namespace LotusKit.Frame
open LotusKit.Lib.LinkedList

variable {T α : Type} {K : Nat} [DecidableEq T] {items : Fin K → List (Ptr × α)} {b : Board K α} {n : Nat}
  {s : DrawFrame T α K} {t : T} (hasArgs : α → Bool)

namespace Inv
variable {pc : Pc K α}

omit [DecidableEq T] in
/-- A thread that is not idle owns the lock. -/
theorem owner (inv : Inv s b items n) (at_pc : s.pc t = pc) (busy : pc ≠ .idle) :
    ∃ m, n = m + 1 ∧ s.drawListLock = some t ∧ Stage s.heap b items (m + 1) pc := by
  subst at_pc
  have owner : s.drawListLock = some t := by
    by_contra other
    exact busy (inv.idle t other)
  have stage := inv.held t owner
  obtain ⟨m, rfl⟩ := Nat.exists_eq_add_one.mpr stage.pos
  exact ⟨m, rfl, owner, stage⟩

/-- The owner of the lock goes on. -/
theorem advance {heap : Memory Ptr α} {heads : Fin K → Option Ptr} {items' : Fin K → List (Ptr × α)} {b' : Board K α}
    (inv : Inv s b items (n + 1)) (owner : s.drawListLock = some t) (laid : Laid heap heads items')
    (stage : Stage heap b' items' n pc) :
    Inv ⟨s.drawListLock, heads, heap, Function.update s.pc t pc⟩ b' items' n ∧
      Goes s t (n + 1) ⟨s.drawListLock, heads, heap, Function.update s.pc t pc⟩ n where
  left.laid := laid
  left.idle u other := by
    have differs : u ≠ t := fun same => other (same ▸ owner)
    exact (Function.update_of_ne differs _ _).trans (inv.idle u other)
  left.free unlocked := nomatch owner.symm.trans unlocked
  left.held u also := by
    cases owner.symm.trans also
    change Stage heap b' items' n (Function.update s.pc t pc t)
    rwa [Function.update_self]
  right.owner _ := .inr ⟨owner, Nat.lt_succ_self n⟩
  right.other _ other := absurd owner other

theorem goto (inv : Inv s b items (n + 1)) (owner : s.drawListLock = some t) (stage : Stage s.heap b items n pc) :
    Inv (s.goto t pc) b items n ∧ Goes s t (n + 1) (s.goto t pc) n :=
  inv.advance owner inv.laid stage

theorem lock {m : Nat} (inv : Inv s b items n) (unlocked : s.drawListLock = none) (stage : Stage s.heap b items m pc) :
    Inv { s.goto t pc with drawListLock := some t } b items m ∧
      Goes s t n { s.goto t pc with drawListLock := some t } m where
  left.laid := inv.laid
  left.idle u other := by
    have differs : u ≠ t := fun same => other (same ▸ rfl)
    have nobody : s.drawListLock ≠ some u := by simp [unlocked]
    exact (Function.update_of_ne differs _ _).trans (inv.idle u nobody)
  left.free locked := nomatch locked
  left.held u also := by
    cases also
    change Stage s.heap b items m (Function.update s.pc t pc t)
    rwa [Function.update_self]
  right.owner locked := nomatch unlocked.symm.trans locked
  right.other locked := absurd unlocked locked

theorem unlock (inv : Inv s b items n) (owner : s.drawListLock = some t) (filled : Filled b items) :
    Inv { s.goto t .idle with drawListLock := none } b items n ∧
      Goes s t n { s.goto t .idle with drawListLock := none } n where
  left.laid := inv.laid
  left.idle u _ := by
    by_cases same : u = t
    · subst same
      exact Function.update_self _ _ _
    · have other : s.drawListLock ≠ some u := fun also => same (Option.some.inj (also.symm.trans owner))
      exact (Function.update_of_ne same _ _).trans (inv.idle u other)
  left.free _ := filled
  left.held _ locked := nomatch locked
  right.owner _ := .inl rfl
  right.other _ other := absurd owner other

end Inv

omit [DecidableEq T] in
/-- A node where nothing lives is in none of the lists. -/
theorem Inv.write {p : Ptr} {x : α} (inv : Inv s b items n) (dead : s.heap p = none) :
    Laid (Function.update s.heap p (some ⟨x, none⟩)) s.drawLists items ∧
      Fresh (Function.update s.heap p (some ⟨x, none⟩)) items p x := by
  have outside : ∀ i, p ∉ (items i).map Prod.fst := by
    intro i member
    have alive := (inv.laid.lists i).live p member
    rw [dead] at alive
    exact Bool.noConfusion alive
  exact ⟨inv.laid.write outside _, Function.update_self _ _ _, outside⟩

theorem keeps_appendNewDrawNode (inv : Inv s b items n) (i : Fin K) (x : α) :
    (s.step hasArgs t (.appendNewDrawNode i x)).Keeps s t b n := by
  cases at_pc : s.pc t with
  | idle =>
    simp only [DrawFrame.step, at_pc]
    split
    case isTrue unlocked =>
      have nobody := Option.isNone_iff_eq_none.mp unlocked
      exact ⟨items, _, inv.lock nobody ⟨inv.free nobody, le_refl _⟩⟩
    case isFalse =>
      -- the thread does not own the lock, or it would not be idle
      have other : s.drawListLock ≠ some t := by
        intro also
        have stage := inv.held t also
        rw [at_pc] at stage
        exact stage
      exact ⟨items, n, inv, fun also => absurd also other, fun _ _ => ⟨rfl, rfl⟩⟩
  | _ => simp only [DrawFrame.step, at_pc, Outcome.Keeps]

theorem keeps_drawFrame (inv : Inv s b items n) : (s.step hasArgs t .drawFrame).Keeps s t b n := by
  cases at_pc : s.pc t with
  | idle =>
    simp only [DrawFrame.step, at_pc]
    split
    case isTrue unlocked =>
      have nobody := Option.isNone_iff_eq_none.mp unlocked
      have filled := inv.free nobody
      exact ⟨items, _, inv.lock nobody ⟨.zero filled, filled.before, le_refl _⟩⟩
    case isFalse => trivial
  | _ => simp only [DrawFrame.step, at_pc, Outcome.Keeps]

theorem keeps_allocated (inv : Inv s b items n) (newNode : Option Ptr) :
    (s.step hasArgs t (.allocated newNode)).Keeps s t b n := by
  cases at_pc : s.pc t with
  | alloc i x =>
    obtain ⟨m, rfl, owner, filled, enough⟩ := inv.owner at_pc (by simp)
    cases newNode with
    | none =>
      simp only [DrawFrame.step, at_pc]
      exact ⟨items, m, inv.goto owner ⟨filled, by omega⟩⟩
    | some p =>
      simp only [DrawFrame.step, at_pc]
      split
      case isTrue dead =>
        obtain ⟨laid, fresh⟩ := inv.write (x := x) (Option.isNone_iff_eq_none.mp dead)
        exact ⟨items, m, inv.advance owner laid ⟨filled, fresh, by omega⟩⟩
      case isFalse => trivial
  | _ => simp only [DrawFrame.step, at_pc, Outcome.Keeps]

theorem keeps_allocatedArgs (inv : Inv s b items n) (done : Bool) :
    (s.step hasArgs t (.allocatedArgs done)).Keeps s t b n := by
  cases at_pc : s.pc t with
  | allocArgs i x p =>
    obtain ⟨m, rfl, owner, filled, fresh, enough⟩ := inv.owner at_pc (by simp)
    simp only [DrawFrame.step, at_pc]
    split
    case isTrue => exact ⟨items, m, inv.goto owner ⟨filled, by omega⟩⟩
    case isFalse => exact ⟨items, m, inv.goto owner ⟨filled, fresh, by omega⟩⟩
  | _ => simp only [DrawFrame.step, at_pc, Outcome.Keeps]

theorem keeps_append (inv : Inv s b items n) {i : Fin K} {x : α} {p : Ptr} (at_pc : s.pc t = .append i x p) :
    (s.step hasArgs t .go).Keeps s t b n := by
  obtain ⟨m, rfl, owner, filled, fresh, enough⟩ := inv.owner at_pc (by simp)
  simp only [DrawFrame.step, at_pc]
  split
  case isTrue unset =>
    have nothing : items i = [] := (Option.isNone_iff_eq_none.mp unset ▸ inv.laid.lists i).eq_nil
    have laid := inv.laid.push fresh.here fresh.outside nothing
    exact ⟨filled.before, _, m, inv.advance owner laid ⟨filled.append i x p, by omega⟩⟩
  case isFalse => exact ⟨items, m, inv.goto owner ⟨filled, fresh, by omega⟩⟩

theorem keeps_enter (inv : Inv s b items n) {i : Fin K} {x : α} {p : Ptr} (at_pc : s.pc t = .enter i x p) :
    (s.step hasArgs t .go).Keeps s t b n := by
  obtain ⟨m, rfl, owner, filled, fresh, enough⟩ := inv.owner at_pc (by simp)
  simp only [DrawFrame.step, at_pc]
  split
  case h_1 => exact ⟨items, m, inv.goto owner ⟨filled, by omega⟩⟩
  case h_2 node head =>
    obtain ⟨y, back, contents⟩ := (head ▸ inv.laid.lists i).eq_cons
    have length := filled.length i
    rw [contents, List.length_cons] at length
    exact ⟨items, m, inv.goto owner ⟨filled, fresh, [], y, back, contents, by omega⟩⟩

theorem keeps_walk (inv : Inv s b items n) {i : Fin K} {x : α} {p node : Ptr} (at_pc : s.pc t = .walk i x p node) :
    (s.step hasArgs t .go).Keeps s t b n := by
  obtain ⟨m, rfl, owner, filled, fresh, front, y, back, contents, enough⟩ := inv.owner at_pc (by simp)
  obtain ⟨next, here, rest⟩ := (contents ▸ inv.laid.lists i).read
  cases next with
  | none =>
    simp only [DrawFrame.step, at_pc, here]
    rw [rest.eq_nil] at contents
    have laid := inv.laid.link fresh.here fresh.outside contents
    exact ⟨filled.before, _, m, inv.advance owner laid ⟨filled.append i x p, by omega⟩⟩
  | some cmpNode =>
    simp only [DrawFrame.step, at_pc, here]
    obtain ⟨z, back', behind⟩ := rest.eq_cons
    rw [behind, List.length_cons] at enough
    refine ⟨items, m, inv.goto owner ⟨filled, fresh, front ++ [(node, y)], z, back', ?_, by omega⟩⟩
    rw [contents, behind, List.append_assoc, List.singleton_append]

theorem keeps_release (inv : Inv s b items n) (at_pc : s.pc t = .release) : (s.step hasArgs t .go).Keeps s t b n := by
  obtain ⟨m, rfl, owner, filled, -⟩ := inv.owner at_pc (by simp)
  simp only [DrawFrame.step, at_pc]
  exact ⟨items, _, inv.unlock owner filled⟩

theorem keeps_drawList (inv : Inv s b items n) {k : Nat} (at_pc : s.pc t = .drawList k) :
    (s.step hasArgs t .go).Keeps s t b n := by
  obtain ⟨m, rfl, owner, wiped, drawn, enough⟩ := inv.owner at_pc (by simp)
  simp only [DrawFrame.step, at_pc]
  split
  case isTrue inside =>
    have left := b.left_eq ⟨k, inside⟩
    have length := wiped.length (i := ⟨k, inside⟩)
    dsimp only at left
    split
    case h_1 unset =>
      have nothing := (unset ▸ inv.laid.lists ⟨k, inside⟩).eq_nil
      have shown := wiped.shown_succ (i := ⟨k, inside⟩)
      rw [nothing, List.map_nil, List.append_nil] at shown
      exact ⟨items, m, inv.goto owner ⟨wiped.skip (i := ⟨k, inside⟩) nothing, drawn.trans shown.symm, by omega⟩⟩
    case h_2 node head =>
      obtain ⟨x, back, contents⟩ := (head ▸ inv.laid.lists ⟨k, inside⟩).eq_cons
      rw [contents, List.length_cons] at length
      refine ⟨items, m, inv.goto owner ⟨wiped, [], x, back, contents, ?_, by dsimp only; omega⟩⟩
      rw [drawn, List.map_nil, List.append_nil]
  case isFalse outside =>
    have all := Nat.not_lt.mp outside
    have two := b.two_le_left k
    cases wiped.all all
    rw [b.shown_all all] at drawn
    exact ⟨drawn, fun _ => [], m, inv.advance owner inv.laid.reset ⟨⟨fun _ => rfl, rfl⟩, by omega⟩⟩

theorem keeps_drawNode (inv : Inv s b items n) {i : Fin K} {node : Ptr} (at_pc : s.pc t = .drawNode i node) :
    (s.step hasArgs t .go).Keeps s t b n := by
  obtain ⟨m, rfl, owner, wiped, front, x, back, contents, drawn, enough⟩ := inv.owner at_pc (by simp)
  obtain ⟨next, here, rest⟩ := (contents ▸ inv.laid.lists i).read
  have one_more : b.drawn ++ [(i, x)] = b.shown i ++ (front ++ [(node, x)]).map fun item => (i, item.2) := by
    rw [drawn, List.append_assoc, List.map_append, List.map_singleton]
  have shown := wiped.shown_succ
  rw [contents, ← List.singleton_append, ← List.append_assoc, List.map_append, ← List.append_assoc, ← one_more] at shown
  have allowed : b.Allows (.drawn i x) := by
    apply List.IsPrefix.trans _ (b.shown_prefix (i + 1))
    rw [shown]
    exact List.prefix_append _ _
  cases next with
  | none =>
    simp only [DrawFrame.step, at_pc, here]
    rw [rest.eq_nil, List.map_nil, List.append_nil] at shown
    rw [rest.eq_nil, List.length_nil] at enough
    have same : (b.after (.drawn i x)).left (i + 1) = b.left (i + 1) := rfl
    exact ⟨allowed, items, m, inv.advance owner inv.laid ⟨wiped, shown.symm, by omega⟩⟩
  | some next =>
    simp only [DrawFrame.step, at_pc, here]
    obtain ⟨y, back', behind⟩ := rest.eq_cons
    rw [behind, List.length_cons] at enough
    have same : (b.after (.drawn i x)).left (i + 1) = b.left (i + 1) := rfl
    refine ⟨allowed, items, m, inv.advance owner inv.laid
      ⟨wiped, front ++ [(node, x)], y, back', ?_, one_more, by omega⟩⟩
    rw [contents, behind, List.append_assoc, List.singleton_append]

theorem keeps_wipe (inv : Inv s b items n) {i : Fin K} (at_pc : s.pc t = .wipe i) : (s.step hasArgs t .go).Keeps s t b n := by
  obtain ⟨m, rfl, owner, wiped, drawn, enough⟩ := inv.owner at_pc (by simp)
  simp only [DrawFrame.step, at_pc]
  exact ⟨_, m, inv.advance owner (inv.laid.clear i) ⟨wiped.next, drawn, by omega⟩⟩

end LotusKit.Frame
