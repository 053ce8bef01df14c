import LotusKit.Front.Transport

/-! What a message does to the callbacks that wait for it: it reaches every one, but the one behind a
callback that is done with it is passed over. -/

namespace LotusKit.Front

def Closure.Waits (ns : String) (c : Closure) : Prop := c.ns = ns ∧ c.resolved = false

instance (ns : String) (c : Closure) : Decidable (c.Waits ns) := inferInstanceAs (Decidable (_ ∧ _))

/-- The callbacks that wait for a namespace, numbered from `i` on. -/
def waiting (ns : String) : Nat → List Closure → List Nat
  | _, [] => []
  | i, c :: closures => if c.Waits ns then i :: waiting ns (i + 1) closures else waiting ns (i + 1) closures

/-- With `skip` the next callback that waits is passed over. -/
def deliver (payload : Payload) : Bool → List Closure → List Closure
  | _, [] => []
  | skip, c :: closures =>
    if c.Waits payload.ns then
      if skip then c :: deliver payload false closures
      else ⟨c.ns, (c.request.each payload).1, payload.endDump⟩ :: deliver payload payload.endDump closures
    else c :: deliver payload skip closures

theorem waiting_append (ns : String) (i : Nat) (front back : List Closure) :
    waiting ns i (front ++ back) = waiting ns i front ++ waiting ns (i + front.length) back := by
  induction front generalizing i with
  | nil => rfl
  | cons c front ih =>
    have later : i + 1 + front.length = i + (c :: front).length := by rw [List.length_cons, Nat.add_assoc, Nat.add_comm 1]
    rw [List.cons_append, waiting, waiting, ih, later]
    split
    case isTrue => rw [List.cons_append]
    case isFalse => rfl

theorem lt_of_mem_waiting {ns : String} {i j : Nat} {closures : List Closure} (member : j ∈ waiting ns i closures) :
    j < i + closures.length := by
  induction closures generalizing i with
  | nil => exact absurd member List.not_mem_nil
  | cons c closures ih =>
    rw [waiting] at member
    rw [List.length_cons]
    split at member
    case isTrue =>
      obtain same | behind := List.mem_cons.mp member
      · omega
      · have := ih behind
        omega
    case isFalse =>
      have := ih member
      omega

theorem deliver_of_none_waits {payload : Payload} {i : Nat} {closures : List Closure}
    (nobody : waiting payload.ns i closures = []) (skip : Bool) : deliver payload skip closures = closures := by
  induction closures generalizing i with
  | nil => rfl
  | cons c closures ih =>
    rw [waiting] at nobody
    split at nobody
    case isTrue => exact absurd nobody (List.cons_ne_nil _ _)
    case isFalse passed => rw [deliver, if_neg passed, ih nobody]

theorem waiting_deliver_of_ne {payload : Payload} {ns : String} (other : payload.ns ≠ ns) (skip : Bool) (i : Nat)
    (closures : List Closure) : waiting ns i (deliver payload skip closures) = waiting ns i closures := by
  induction closures generalizing skip i with
  | nil => rfl
  | cons c closures ih =>
    rw [deliver]
    split
    case isTrue waits =>
      have elsewhere : c.ns ≠ ns := fun same => other (waits.1.symm.trans same)
      split
      · rw [waiting, waiting, ih]
      · rw [waiting, waiting, ih, if_neg fun waits => elsewhere waits.1, if_neg fun waits => elsewhere waits.1]
    case isFalse => rw [waiting, waiting, ih]

/-- Callbacks of other namespaces do not matter. -/
theorem deliver_filter (payload : Payload) (skip : Bool) (closures : List Closure) :
    (deliver payload skip closures).filter (·.ns = payload.ns) =
      deliver payload skip (closures.filter (·.ns = payload.ns)) := by
  induction closures generalizing skip with
  | nil => rfl
  | cons c closures ih =>
    by_cases here : c.ns = payload.ns
    · rw [List.filter_cons_of_pos (by simpa using here), deliver, deliver]
      split
      · split
        · rw [List.filter_cons_of_pos (by simpa using here), ih]
        · rw [List.filter_cons_of_pos (by simpa using here), ih]
      · rw [List.filter_cons_of_pos (by simpa using here), ih]
    · have passed : ¬c.Waits payload.ns := fun waits => here waits.1
      rw [List.filter_cons_of_neg (by simpa using here), deliver, if_neg passed,
        List.filter_cons_of_neg (by simpa using here), ih]

theorem deliver_filter_of_ne {payload : Payload} {ns : String} (other : payload.ns ≠ ns) (skip : Bool)
    (closures : List Closure) :
    (deliver payload skip closures).filter (·.ns = ns) = closures.filter (·.ns = ns) := by
  induction closures generalizing skip with
  | nil => rfl
  | cons c closures ih =>
    rw [deliver]
    split
    case isTrue waits =>
      have elsewhere : ¬c.ns = ns := fun same => other (waits.1.symm.trans same)
      rw [List.filter_cons_of_neg (by simpa using elsewhere)]
      split
      · rw [List.filter_cons_of_neg (by simpa using elsewhere), ih]
      · rw [List.filter_cons_of_neg (by simpa using elsewhere), ih]
    case isFalse => rw [List.filter_cons, List.filter_cons, ih]

namespace WSTransport
variable {t : WSTransport} {payload : Payload}

/-- A round behind the end of the array does nothing. -/
theorem visits_behind {cbs : List Nat} (subscribed : t.ns_subscriptions payload.ns = some cbs) (n : Nat) :
    ∀ k, cbs.length ≤ k → (List.range' k n).foldl (fun t k => t.visit payload k) t = t := by
  induction n with
  | zero => intros; rfl
  | succ n ih =>
    intro k behind
    have unchanged : t.visit payload k = t := by
      rw [visit, subscribed]
      dsimp only
      rw [List.getElem?_eq_none behind]
    rw [List.range'_succ, List.foldl_cons, unchanged]
    exact ih (k + 1) (Nat.le_succ_of_le behind)

/-- A callback that is called, with what stands before it and behind it in its array. -/
theorem visit_eq {done rest : List Closure} {c : Closure} {front back : List Nat} (made : t.closures = done ++ c :: rest)
    (waits : c.Waits payload.ns) (subscribed : t.ns_subscriptions payload.ns = some (front ++ done.length :: back))
    (before : ∀ i ∈ front, i < done.length) :
    t.visit payload front.length =
      ⟨Function.update t.ns_subscriptions payload.ns
          (some (if payload.endDump then front ++ back else front ++ done.length :: back)),
        done ++ ⟨c.ns, (c.request.each payload).1, payload.endDump⟩ :: rest⟩ := by
  have found : (front ++ done.length :: back)[front.length]? = some done.length := by
    rw [List.getElem?_append_right (Nat.le_refl _), Nat.sub_self]
    rfl
  have closure : t.closures[done.length]? = some c := by
    rw [made, List.getElem?_append_right (Nat.le_refl _), Nat.sub_self]
    rfl
  have index : (front ++ done.length :: back).idxOf done.length = front.length := by
    have outside : done.length ∉ front := fun member => absurd (before _ member) (Nat.lt_irrefl _)
    rw [List.idxOf_append_of_notMem outside, List.idxOf_cons_self, Nat.add_zero]
  have member : done.length ∈ front ++ done.length :: back :=
    List.mem_append_right _ List.mem_cons_self
  rw [visit, subscribed]
  dsimp only
  rw [found]
  dsimp only
  rw [cb, closure]
  dsimp only
  rw [c.request.each_done, waits.2, Bool.false_or, made, List.set_append_right _ _ (Nat.le_refl _), Nat.sub_self,
    List.set_cons_zero]
  cases payload.endDump with
  | false => rw [if_neg Bool.false_ne_true, if_neg Bool.false_ne_true, ← subscribed, Function.update_eq_self]
  | true =>
    rw [if_pos rfl, if_pos rfl, unsubscribe_ns, waits.1]
    dsimp only
    rw [subscribed]
    dsimp only
    rw [if_pos member, index, List.eraseIdx_append_of_length_le (Nat.le_refl _), Nat.sub_self]
    rfl

/-- What the rounds that are left do. The callbacks of `front` are passed, and with `skip` one more
has moved to where a callback has been taken out. -/
theorem visits_eq (rest : List Closure) : ∀ (t : WSTransport) (done : List Closure) (front : List Nat) (skip : Bool)
    (n k : Nat), t.closures = done ++ rest →
    t.ns_subscriptions payload.ns = some (front ++ waiting payload.ns done.length rest) →
    (∀ i ∈ front, i < done.length) → front.length + skip.toNat = k →
    (waiting payload.ns done.length rest).length ≤ n + skip.toNat →
    (List.range' k n).foldl (fun t k => t.visit payload k) t =
      ⟨Function.update t.ns_subscriptions payload.ns
          (some (front ++ waiting payload.ns done.length (deliver payload skip rest))),
        done ++ deliver payload skip rest⟩ := by
  induction rest with
  | nil =>
    intro t done front skip n k made subscribed before at_round enough
    have behind : (front ++ waiting payload.ns done.length []).length ≤ k := by
      rw [waiting, List.append_nil]
      omega
    rw [visits_behind subscribed n k behind, deliver, ← subscribed, Function.update_eq_self, ← made]
  | cons c rest ih =>
    intro t done front skip n k made subscribed before at_round enough
    have appended (c : Closure) (rest : List Closure) : done ++ c :: rest = done ++ [c] ++ rest := by
      rw [List.append_assoc, List.singleton_append]
    have longer (c : Closure) : (done ++ [c]).length = done.length + 1 := List.length_append
    have still (c : Closure) : ∀ i ∈ front, i < (done ++ [c]).length := by
      intro i member
      rw [longer]
      exact Nat.lt_succ_of_lt (before i member)
    have also (c : Closure) : ∀ i ∈ front ++ [done.length], i < (done ++ [c]).length := by
      intro i member
      obtain earlier | same := List.mem_append.mp member
      · exact still c i earlier
      · rw [List.mem_singleton.mp same, longer]
        exact Nat.lt_succ_self _
    by_cases waits : c.Waits payload.ns
    · rw [waiting, if_pos waits] at subscribed enough
      rw [List.length_cons] at enough
      cases skip with
      | true =>
        rw [deliver, if_pos waits, if_pos rfl, waiting, if_pos waits, appended c (deliver _ _ _)]
        rw [← List.singleton_append, ← List.append_assoc, ← longer c] at subscribed ⊢
        exact ih t (done ++ [c]) (front ++ [done.length]) false n k (made.trans (appended c rest)) subscribed (also c)
          (by rw [List.length_append]; exact at_round) (by rw [longer]; exact Nat.le_of_succ_le_succ enough)
      | false =>
        obtain ⟨n, rfl⟩ : ∃ m, n = m + 1 := Nat.exists_eq_add_one.mpr (Nat.lt_of_lt_of_le (Nat.succ_pos _) enough)
        obtain rfl : front.length = k := at_round
        have enough := Nat.le_of_succ_le_succ enough
        rw [List.range'_succ, List.foldl_cons, visit_eq made waits subscribed before, deliver, if_pos waits,
          if_neg Bool.false_ne_true]
        have same_ns : c.ns = payload.ns := waits.1
        generalize (c.request.each payload).1 = request
        cases ended : payload.endDump with
        | true =>
          let after : WSTransport := ⟨Function.update t.ns_subscriptions payload.ns
            (some (front ++ waiting payload.ns (done.length + 1) rest)), done ++ ⟨c.ns, request, true⟩ :: rest⟩
          have goes_on := ih after (done ++ [⟨c.ns, request, true⟩]) front true n (front.length + 1)
            (appended _ rest) (by rw [longer]; exact Function.update_self _ _ _) (still _) rfl
            (by rw [longer]; exact Nat.le_succ_of_le enough)
          have resolved : ¬Closure.Waits payload.ns ⟨c.ns, request, true⟩ := fun waits => Bool.noConfusion waits.2
          rw [Function.update_idem, longer, List.append_assoc, List.singleton_append] at goes_on
          rw [if_pos rfl, waiting, if_neg resolved]
          exact goes_on
        | false =>
          let after : WSTransport := ⟨Function.update t.ns_subscriptions payload.ns
            (some (front ++ done.length :: waiting payload.ns (done.length + 1) rest)),
            done ++ ⟨c.ns, request, false⟩ :: rest⟩
          have goes_on := ih after (done ++ [⟨c.ns, request, false⟩]) (front ++ [done.length]) false n (front.length + 1)
            (appended _ rest) (by rw [longer, List.append_assoc]; exact Function.update_self _ _ _) (also _)
            (by rw [List.length_append]; rfl) (by rw [longer]; exact enough)
          have still_waits : Closure.Waits payload.ns ⟨c.ns, request, false⟩ := ⟨same_ns, rfl⟩
          rw [Function.update_idem, longer, List.append_assoc, List.append_assoc, List.singleton_append,
            List.singleton_append] at goes_on
          rw [if_neg Bool.false_ne_true, waiting, if_pos still_waits]
          exact goes_on
    · rw [waiting, if_neg waits, ← longer c] at subscribed enough
      rw [deliver, if_neg waits, waiting, if_neg waits, appended c (deliver _ _ _), ← longer c]
      exact ih t (done ++ [c]) front skip n k (made.trans (appended c rest)) subscribed (still c) at_round enough

/-- The arrays hold the callbacks that wait, in the order in which they were made. -/
def Inv (t : WSTransport) : Prop := ∀ ns, (t.ns_subscriptions ns).getD [] = waiting ns 0 t.closures

theorem inv_start : Inv start := fun _ => rfl

theorem consume_ws_msg_eq (inv : Inv t) (payload : Payload) :
    (t.consume_ws_msg payload).closures = deliver payload false t.closures ∧ Inv (t.consume_ws_msg payload) := by
  have waits := inv payload.ns
  cases subscribed : t.ns_subscriptions payload.ns with
  | none =>
    rw [subscribed] at waits
    have unchanged : t.consume_ws_msg payload = t := by rw [consume_ws_msg, subscribed]
    rw [unchanged, deliver_of_none_waits waits.symm]
    exact ⟨rfl, inv⟩
  | some cbs =>
    rw [subscribed] at waits
    obtain rfl : cbs = waiting payload.ns 0 t.closures := waits
    have walked := visits_eq t.closures t [] [] false _ 0 rfl subscribed (fun _ member => absurd member List.not_mem_nil)
      rfl (Nat.le_refl _)
    have consumed : t.consume_ws_msg payload =
        ⟨Function.update t.ns_subscriptions payload.ns (some (waiting payload.ns 0 (deliver payload false t.closures))),
          deliver payload false t.closures⟩ := by
      rw [consume_ws_msg, subscribed]
      dsimp only
      rw [List.range_eq_range']
      exact walked
    rw [consumed]
    refine ⟨rfl, ?_⟩
    intro ns
    by_cases same : ns = payload.ns
    all_goals
      change (Function.update t.ns_subscriptions payload.ns _ ns).getD [] = waiting ns 0 (deliver payload false t.closures)
    · subst same
      rw [Function.update_self, Option.getD_some]
    · rw [Function.update_of_ne same, waiting_deliver_of_ne (Ne.symm same)]
      exact inv ns

theorem subscribe_ns_async_eq (inv : Inv t) (ns : String) (request : Request) :
    (t.subscribe_ns_async ns request).closures = t.closures ++ [⟨ns, request, false⟩] ∧
      Inv (t.subscribe_ns_async ns request) := by
  have waits := inv ns
  have subscribed : t.subscribe_ns_async ns request =
      ⟨Function.update t.ns_subscriptions ns (some (waiting ns 0 t.closures ++ [t.closures.length])),
        t.closures ++ [⟨ns, request, false⟩]⟩ := by
    rw [subscribe_ns_async, subscribe_ns, ← waits]
    dsimp only
    cases at_ns : t.ns_subscriptions ns with
    | none => rfl
    | some cbs =>
      rw [at_ns, Option.getD_some] at waits
      have new : t.closures.length ∉ cbs := by
        intro member
        have bound := lt_of_mem_waiting (waits ▸ member)
        omega
      dsimp only
      rw [if_neg new]
      rfl
  rw [subscribed]
  refine ⟨rfl, ?_⟩
  intro ns'
  change (Function.update t.ns_subscriptions ns _ ns').getD [] = waiting ns' 0 (t.closures ++ [⟨ns, request, false⟩])
  rw [waiting_append, Nat.zero_add, waiting]
  by_cases same : ns' = ns
  · subst same
    rw [Function.update_self, if_pos ⟨rfl, rfl⟩]
    rfl
  · rw [Function.update_of_ne same, if_neg fun waits => same waits.1.symm, waiting, List.append_nil]
    exact inv ns'

end WSTransport

/-- An event as the callbacks see it. -/
def Event.deliver (closures : List Closure) : Event → List Closure
  | subscribe_ns_async ns request => closures ++ [⟨ns, request, false⟩]
  | message payload => Front.deliver payload false closures

theorem handle_eq {t : WSTransport} (inv : t.Inv) (event : Event) :
    (t.handle event).closures = event.deliver t.closures ∧ (t.handle event).Inv := by
  cases event with
  | subscribe_ns_async ns request => exact WSTransport.subscribe_ns_async_eq inv ns request
  | message payload => exact WSTransport.consume_ws_msg_eq inv payload

theorem run_eq {t : WSTransport} (inv : t.Inv) (events : List Event) :
    (t.run events).closures = events.foldl Event.deliver t.closures := by
  induction events generalizing t with
  | nil => rfl
  | cons event events ih =>
    obtain ⟨closures, inv'⟩ := handle_eq inv event
    rw [List.foldl_cons, ← closures]
    exact ih inv'

/-- The callbacks of a namespace see nothing of the other namespaces. -/
theorem run_filter (ns : String) (events : List Event) (closures : List Closure) :
    (events.foldl Event.deliver closures).filter (·.ns = ns) =
      (events.filter (·.ns = ns)).foldl Event.deliver (closures.filter (·.ns = ns)) := by
  induction events generalizing closures with
  | nil => rfl
  | cons event events ih =>
    rw [List.foldl_cons, ih, List.filter_cons]
    by_cases here : event.ns = ns
    · rw [if_pos (by simpa using here), List.foldl_cons]
      congr 1
      cases event with
      | subscribe_ns_async ns' request =>
        obtain rfl : ns' = ns := here
        rw [Event.deliver, Event.deliver, List.filter_append, List.filter_singleton]
        simp
      | message payload =>
        obtain rfl : payload.ns = ns := here
        exact deliver_filter payload false closures
    · rw [if_neg (by simpa using here)]
      congr 1
      cases event with
      | subscribe_ns_async ns' request =>
        have other : ¬ns' = ns := here
        rw [Event.deliver, List.filter_append, List.filter_singleton]
        simp [other]
      | message payload => exact deliver_filter_of_ne here false closures

end LotusKit.Front
