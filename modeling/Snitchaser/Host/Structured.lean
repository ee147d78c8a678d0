import Snitchaser.Host.Exception

/-!
# The exceptions are structured

`simulates`: from any state in which all catchers are running their bodies, the machine runs a
statement as `eval` says, whatever is to be done after it. From that follows what is said of
whole programs in `exceptions_structured`.
-/

namespace Snitchaser.Host

/-! ### Steps -/

theorem Steps.refl (st : State) : Steps st st := Relation.ReflTransGen.refl

theorem Steps.head {a b c : State} (h : a.step = .ok b) (hs : Steps b c) : Steps a c :=
  Relation.ReflTransGen.head h hs

theorem Steps.trans {a b c : State} (hab : Steps a b) (hbc : Steps b c) : Steps a c :=
  Relation.ReflTransGen.trans hab hbc

/-- A step can be made in one way only: what is reached on the way to a halt leads there. -/
theorem Steps.to_halt {a b halted : State} {h : Halt} (hb : Steps a b) (hh : Steps a halted)
    (hhalt : halted.step = .error h) : Steps b halted := by
  induction hb using Relation.ReflTransGen.head_induction_on with
  | refl => exact hh
  | head hstep _ ih =>
    rcases Relation.ReflTransGen.cases_head hh with rfl | ⟨c, hc, hrest⟩
    · rw [hhalt] at hstep
      cases hstep
    · rw [hstep] at hc
      cases hc
      exact ih hrest

/-! ### One statement -/

/-- The machine, on the state of `eval`. -/
def State.of (k : List Code) (cs : List Catcher) (r : Ref) : State := ⟨k, cs, r.vars, r.next, r.log⟩

/-- **Where the machine is when a statement is left**, with `k` to be done after it. -/
def Leaves (k : List Code) (cs : List Catcher) : Outcome → Ref → State → Prop
  | .normal, r, st => st = .of k cs r
  | .brk, r, st => st = .of (breakTo k) cs r
  | .cont, r, st => st = .of (contTo k) cs r
  | .thrown e, r, st =>
    match cs with
    | [] => st.step = .error (.outmost e) ∧ ∃ k', st = .of k' [] r
    | c :: cs =>
      st = ⟨c.buf, { c with state := .thrown } :: cs, Function.update r.vars c.currExp e, r.next, r.log⟩

/-- All catchers are running their bodies. -/
def Executing (cs : List Catcher) : Prop := ∀ c ∈ cs, c.state = .execBody

/-- The machine runs a statement as it is meant. -/
def Runs {l : Bool} (s : Stmt l) : Prop :=
  ∀ (k : List Code) (cs : List Catcher) (r : Ref), Executing cs →
    ∃ st, Steps (.of (.stmt s :: k) cs r) st ∧
      Leaves k cs (eval s (cs.map Catcher.id) r).1 (eval s (cs.map Catcher.id) r).2 st

theorem breakTo_cons {code : Code} (h : ∀ t, code ≠ .loopTest t) (k : List Code) :
    breakTo (code :: k) = breakTo k := by
  cases code with
  | loopTest t => exact absurd rfl (h t)
  | _ => rfl

theorem contTo_cons {code : Code} (h : ∀ t, code ≠ .loopTest t) (k : List Code) :
    contTo (code :: k) = contTo k := by
  cases code with
  | loopTest t => exact absurd rfl (h t)
  | _ => rfl

/-- A statement that is left abruptly leaves what was to be done right after it, too. -/
theorem Leaves.abrupt {code : Code} (hcode : ∀ t, code ≠ .loopTest t) {k : List Code} {cs : List Catcher}
    {out : Outcome} (hout : out ≠ .normal) {r : Ref} {st : State} (h : Leaves (code :: k) cs out r st) :
    Leaves k cs out r st := by
  cases out with
  | normal => exact absurd rfl hout
  | brk => rwa [Leaves, breakTo_cons hcode] at h
  | cont => rwa [Leaves, contTo_cons hcode] at h
  | thrown e => exact h

theorem runs_throw {l : Bool} {s : Stmt l} {e : Ref → Exc}
    (hstep : ∀ k cs r, (State.of (.stmt s :: k) cs r).step = (State.of (.stmt s :: k) cs r).throw (e r))
    (heval : ∀ running r, eval s running r = r.throw running (e r)) : Runs s := by
  intro k cs r hcs
  rw [heval]
  cases cs with
  | nil => exact ⟨_, .refl _, hstep k [] r, _, rfl⟩
  | cons c cs =>
    have hstate : c.state = .execBody := hcs c List.mem_cons_self
    refine ⟨_, .head ((hstep k (c :: cs) r).trans ?_) (.refl _), rfl⟩
    simp only [State.throw, State.of, exceptionsStateMc, hstate]
    rfl

theorem runs_seq {l : Bool} {s t : Stmt l} (hs : Runs s) (ht : Runs t) : Runs (.seq s t) := by
  intro k cs r hcs
  obtain ⟨st, hsteps, hleaves⟩ := hs (.stmt t :: k) cs r hcs
  have hfirst : Steps (.of (.stmt (.seq s t) :: k) cs r) st := .head rfl hsteps
  rw [eval]
  rcases heval : eval s (cs.map Catcher.id) r with ⟨out, r'⟩
  rw [heval] at hleaves
  cases out with
  | normal =>
    obtain ⟨st', hsteps', hleaves'⟩ := ht k cs r' hcs
    rw [show st = .of (.stmt t :: k) cs r' from hleaves] at hfirst
    exact ⟨st', hfirst.trans hsteps', hleaves'⟩
  | _ => exact ⟨st, hfirst, hleaves.abrupt (by simp) (by simp)⟩

theorem runs_cond {l : Bool} {c : Vars → Bool} {s t : Stmt l} (hs : Runs s) (ht : Runs t) :
    Runs (.cond c s t) := by
  intro k cs r hcs
  rw [eval]
  have hstep : (State.of (.stmt (.cond c s t) :: k) cs r).step =
      .ok (.of (.stmt (if c r.vars then s else t) :: k) cs r) := rfl
  split_ifs at hstep ⊢
  · obtain ⟨st, hsteps, hleaves⟩ := hs k cs r hcs
    exact ⟨st, hsteps.head hstep, hleaves⟩
  · obtain ⟨st, hsteps, hleaves⟩ := ht k cs r hcs
    exact ⟨st, hsteps.head hstep, hleaves⟩

/-- However the body was left, the catcher is popped and the `FINALLY` begins. -/
theorem finally_of_leaves {t : Entered} {k : List Code} {cs : List Catcher} {out : Outcome} {r : Ref}
    {st : State}
    (h : Leaves (.loopTest t :: k) (⟨t.id, .execBody, t.x, .loopTest t :: k⟩ :: cs) out r st) :
    Steps st (.of (.stmt t.fin :: .test t :: k) cs
      ⟨out.caught t.x r.vars, r.next, r.log ++ [.pop t.id, .finallyBody t.id]⟩) := by
  have hlog : r.log ++ [.pop t.id, .finallyBody t.id] = r.log ++ [.pop t.id] ++ [.finallyBody t.id] := by
    simp only [List.append_assoc, List.cons_append, List.nil_append]
  rw [hlog]
  have hpop : ∀ state vars, state = .execBody ∨ state = .waitFinally →
      Steps ⟨.callFinally t :: k, ⟨t.id, state, t.x, .loopTest t :: k⟩ :: cs, vars, r.next, r.log⟩
        (.of (.stmt t.fin :: .test t :: k) cs ⟨vars, r.next, r.log ++ [.pop t.id] ++ [.finallyBody t.id]⟩) := by
    intro state vars hstate
    have hbegin : Steps ⟨.finallyBody t :: k, cs, vars, r.next, r.log ++ [.pop t.id]⟩ _ :=
      .head rfl (.refl _)
    refine .head ?_ hbegin
    rcases hstate with rfl | rfl <;> rfl
  have hloop : ∀ state vars, state = .execBody ∨ state = .thrown →
      Steps ⟨.loopTest t :: k, ⟨t.id, state, t.x, .loopTest t :: k⟩ :: cs, vars, r.next, r.log⟩
        (.of (.stmt t.fin :: .test t :: k) cs ⟨vars, r.next, r.log ++ [.pop t.id] ++ [.finallyBody t.id]⟩) := by
    intro state vars hstate
    refine .head ?_ (hpop .waitFinally vars (.inr rfl))
    rcases hstate with rfl | rfl <;> rfl
  cases out with
  | normal =>
    rw [show st = _ from h]
    exact hloop _ _ (.inl rfl)
  | brk =>
    rw [show st = _ from h]
    exact hpop _ _ (.inl rfl)
  | cont =>
    rw [show st = _ from h]
    exact hloop _ _ (.inl rfl)
  | thrown e =>
    rw [show st = _ from h]
    exact hloop _ _ (.inr rfl)

theorem runs_try {l : Bool} {x : Var} {body : Stmt true} {fin handler : Stmt l} (hbody : Runs body)
    (hfin : Runs fin) (hhandler : Runs handler) : Runs (.tryStmt x body fin handler) := by
  intro k cs r hcs
  let t : Entered := ⟨r.next, x, body, fin, handler⟩
  let c : Catcher := ⟨r.next, .execBody, x, .loopTest t :: k⟩
  obtain ⟨st₁, hsteps₁, hleaves₁⟩ := hbody (.loopTest t :: k) (c :: cs)
    ⟨Function.update r.vars x Exc.none, r.next + 1, r.log ++ [.enter r.next]⟩
    (List.forall_mem_cons.mpr ⟨rfl, hcs⟩)
  rw [eval]
  rcases heval₁ : eval body (r.next :: cs.map Catcher.id)
    ⟨Function.update r.vars x Exc.none, r.next + 1, r.log ++ [.enter r.next]⟩ with ⟨out, r₁⟩
  rw [List.map_cons, heval₁] at hleaves₁
  have hto₁ : Steps (.of (.stmt (.tryStmt x body fin handler) :: k) cs r) st₁ :=
    .head rfl (.head rfl hsteps₁)
  have hto₂ := hto₁.trans (finally_of_leaves hleaves₁)
  -- the body is done: the catchers are those of before
  obtain ⟨st₂, hsteps₂, hleaves₂⟩ := hfin (.test t :: k) cs
    ⟨out.caught x r₁.vars, r₁.next, r₁.log ++ [.pop r.next, .finallyBody r.next]⟩ hcs
  have hto₃ := hto₂.trans hsteps₂
  rcases heval₂ : eval fin (cs.map Catcher.id)
    ⟨out.caught x r₁.vars, r₁.next, r₁.log ++ [.pop r.next, .finallyBody r.next]⟩ with ⟨out₂, r₂⟩
  rw [heval₂] at hleaves₂
  simp only [heval₁, heval₂]
  cases out₂ with
  | normal =>
    rw [show st₂ = .of (.test t :: k) cs r₂ from hleaves₂] at hto₃
    by_cases hcaught : (r₂.vars x).type ≠ .noException
    · simp only [if_pos hcaught]
      obtain ⟨st₃, hsteps₃, hleaves₃⟩ := hhandler k cs
        { r₂ with log := r₂.log ++ [.catchBody r.next] } hcs
      exact ⟨st₃, hto₃.trans (.head (if_pos hcaught) hsteps₃), hleaves₃⟩
    · simp only [if_neg hcaught]
      exact ⟨_, hto₃.trans (.head (if_neg hcaught) (.refl _)), rfl⟩
  | _ => exact ⟨st₂, hto₃, hleaves₂.abrupt (by simp) (by simp)⟩

/-- **The machine runs every statement as it is meant.** -/
theorem simulates {l : Bool} (s : Stmt l) : Runs s := by
  induction s with
  | act a => exact fun k cs r _ => ⟨_, .head rfl (.refl _), rfl⟩
  | seq s t hs ht => exact runs_seq hs ht
  | cond c s t hs ht => exact runs_cond hs ht
  | throw type val level msg => exact runs_throw (fun _ _ _ => rfl) fun _ _ => rfl
  | rethrow x => exact runs_throw (fun _ _ _ => rfl) fun _ _ => rfl
  | brk => exact fun k cs r _ => ⟨_, .head rfl (.refl _), rfl⟩
  | cont => exact fun k cs r _ => ⟨_, .head rfl (.refl _), rfl⟩
  | tryStmt x body fin handler hbody hfin hhandler => exact runs_try hbody hfin hhandler

/-! ### The catchers -/

/-- The `TRY`s whose bodies are running, by what is to be done. -/
def running : List Code → List ℕ
  | [] => []
  | .loopTest t :: k => t.id :: running k
  | .callFinally t :: k => t.id :: running k
  | _ :: k => running k

/-- Each loop that is to be done has its catcher, and the catcher knows the loop. -/
def Linked : List Code → List Catcher → Prop
  | [], cs => cs = []
  | .loopTest t :: k, c :: cs => (c.id = t.id ∧ c.buf = .loopTest t :: k) ∧ Linked k cs
  | .loopTest _ :: _, [] => False
  | .callFinally _ :: _, _ => False
  | _ :: k, cs => Linked k cs

/-- **The invariant of a run**: the catchers are those of the loops; the loop that was just
left still has its own. -/
def State.Inv (st : State) : Prop :=
  match st.todo with
  | .callFinally t :: k => Linked (.loopTest t :: k) st.catchers
  | todo => Linked todo st.catchers

theorem Linked.ids {k : List Code} {cs : List Catcher} (h : Linked k cs) :
    cs.map Catcher.id = running k := by
  induction k generalizing cs with
  | nil =>
    rw [show cs = [] from h]
    rfl
  | cons code k ih =>
    cases code with
    | loopTest t =>
      cases cs with
      | nil => exact h.elim
      | cons c cs =>
        rw [List.map_cons, h.1.1, ih h.2]
        rfl
    | callFinally t => exact h.elim
    | _ => exact ih h

/-- `curr_catcher_p` is the catcher of the innermost `TRY` whose body is running. -/
theorem State.Inv.ids {st : State} (h : st.Inv) : st.catchers.map Catcher.id = running st.todo := by
  unfold State.Inv at h
  split at h
  · next heq =>
    rw [heq]
    exact h.ids
  · exact h.ids

theorem State.inv_of_linked {st : State} (h : Linked st.todo st.catchers) : st.Inv := by
  unfold State.Inv
  split
  · next heq =>
    rw [heq] at h
    exact h.elim
  · exact h

/-- The catcher on top leads back to its loop. -/
theorem Linked.buf {k : List Code} {c : Catcher} {cs : List Catcher} (h : Linked k (c :: cs)) :
    Linked c.buf (c :: cs) := by
  induction k with
  | nil => cases (show c :: cs = [] from h)
  | cons code k ih =>
    cases code with
    | loopTest t =>
      rw [h.1.2]
      exact h
    | callFinally t => exact h.elim
    | _ => exact ih h

/-- Another state of the catcher makes no difference. -/
theorem Linked.setState {k : List Code} {c : Catcher} {cs : List Catcher} (state : CatcherState)
    (h : Linked k (c :: cs)) : Linked k ({ c with state } :: cs) := by
  induction k with
  | nil => cases (show c :: cs = [] from h)
  | cons code k ih =>
    cases code with
    | loopTest t => exact h
    | callFinally t => exact h.elim
    | _ => exact ih h

theorem Linked.contTo {k : List Code} {cs : List Catcher} (h : Linked k cs) : Linked (contTo k) cs := by
  induction k generalizing cs with
  | nil => exact h
  | cons code k ih =>
    cases code with
    | loopTest t => exact h
    | callFinally t => exact h.elim
    | _ => exact ih h

theorem inv_breakTo {st : State} {k : List Code} (htodo : st.todo = breakTo k)
    (h : Linked k st.catchers) : st.Inv := by
  induction k with
  | nil => exact State.inv_of_linked (by rw [htodo]; exact h)
  | cons code k ih =>
    cases code with
    | loopTest t =>
      unfold State.Inv
      rw [htodo]
      exact h
    | callFinally t => exact h.elim
    | _ => exact ih htodo h

/-- What `exceptions_state_mc` does to the catchers. -/
theorem exceptionsStateMc_ok {action : Action} {cs cs' : List Catcher} {again : Bool} {popped : List ℕ}
    (h : exceptionsStateMc action cs = .ok (again, cs', popped)) :
    ∃ c rest, cs = c :: rest ∧
      if action = .finally then cs' = rest else ∃ state, cs' = { c with state } :: rest := by
  cases cs with
  | nil => cases h
  | cons c rest =>
    refine ⟨c, rest, rfl, ?_⟩
    obtain ⟨id, state, currExp, buf⟩ := c
    cases state <;> cases action <;> cases h <;> first | rfl | exact ⟨_, rfl⟩

theorem inv_throw {st st' : State} {k : List Code} {e : Exc} (hlinked : Linked k st.catchers)
    (h : st.throw e = .ok st') : st'.Inv := by
  unfold State.throw at h
  split at h
  · cases h
  · next c cs hcs =>
    obtain ⟨⟨again, catchers, popped⟩, hmc, h⟩ := bind_eq_ok.mp h
    cases h
    obtain ⟨c', rest, heq, hcatchers⟩ := exceptionsStateMc_ok hmc
    cases heq
    obtain ⟨state, rfl⟩ := hcatchers
    rw [hcs] at hlinked
    exact State.inv_of_linked (hlinked.buf.setState state)

/-- A step keeps the invariant. -/
theorem State.Inv.step {st st' : State} (hinv : st.Inv) (h : st.step = .ok st') : st'.Inv := by
  obtain ⟨todo, catchers, vars, next, log⟩ := st
  cases todo with
  | nil => cases h
  | cons code k =>
    cases code with
    | loopTest t =>
      obtain ⟨⟨again, cs', popped⟩, hmc, h⟩ := bind_eq_ok.mp h
      cases h
      obtain ⟨c, rest, rfl, state, rfl⟩ := exceptionsStateMc_ok hmc
      have hlinked : Linked (.loopTest t :: k) ({ c with state } :: rest) := Linked.setState state hinv
      cases again with
      | true => exact State.inv_of_linked hlinked
      | false => exact hlinked
    | callFinally t =>
      obtain ⟨⟨again, cs', popped⟩, hmc, h⟩ := bind_eq_ok.mp h
      cases h
      obtain ⟨c, rest, rfl, hrest⟩ := exceptionsStateMc_ok hmc
      have hrest' : cs' = rest := hrest
      subst hrest'
      have hlinked : Linked (.loopTest t :: k) (c :: cs') := hinv
      exact State.inv_of_linked hlinked.2
    | finallyBody t =>
      cases h
      exact State.inv_of_linked (show Linked k catchers from hinv)
    | test t =>
      have hlinked : Linked k catchers := hinv
      unfold State.step at h
      dsimp only at h
      split_ifs at h <;> cases h <;> exact State.inv_of_linked hlinked
    | stmt s =>
      have hlinked : Linked k catchers := hinv
      cases s with
      | act a =>
        cases h
        exact State.inv_of_linked hlinked
      | seq s t =>
        cases h
        exact State.inv_of_linked hlinked
      | cond c s t =>
        cases h
        exact State.inv_of_linked hlinked
      | throw type val level msg => exact inv_throw hlinked h
      | rethrow x => exact inv_throw hlinked h
      | brk =>
        cases h
        exact inv_breakTo rfl hlinked
      | cont =>
        cases h
        exact State.inv_of_linked hlinked.contTo
      | tryStmt x body fin handler =>
        cases h
        exact State.inv_of_linked ⟨⟨rfl, rfl⟩, hlinked⟩

/-- A run keeps the invariant. -/
theorem State.Inv.steps {st st' : State} (hinv : st.Inv) (h : Steps st st') : st'.Inv := by
  induction h with
  | refl => exact hinv
  | tail _ hstep ih => exact ih.step hstep

/-! ### The log -/

/-- What is noted of the catcher and the `FINALLY` of a `TRY`. -/
def Event.marks (i : ℕ) : Event → Bool
  | .enter j | .pop j | .finallyBody j => i == j
  | _ => false

/-- **From one state to the other, each `TRY` that is entered is popped once, and after that
its `FINALLY` begins, once.** -/
def Logged (r r' : Ref) : Prop :=
  r.next ≤ r'.next ∧ ∃ events, r'.log = r.log ++ events ∧
    ∀ i, events.filter (Event.marks i) =
      if r.next ≤ i ∧ i < r'.next then [.enter i, .pop i, .finallyBody i] else []

theorem Logged.refl (r : Ref) : Logged r r :=
  ⟨le_rfl, [], (List.append_nil _).symm, fun i => by rw [if_neg (by omega)]; rfl⟩

theorem Logged.trans {r r' r'' : Ref} (h : Logged r r') (h' : Logged r' r'') : Logged r r'' := by
  obtain ⟨hle, ev, hlog, hmarks⟩ := h
  obtain ⟨hle', ev', hlog', hmarks'⟩ := h'
  refine ⟨hle.trans hle', ev ++ ev', by rw [hlog', hlog, List.append_assoc], fun i => ?_⟩
  rw [List.filter_append, hmarks, hmarks']
  split_ifs <;> first | omega | simp

/-- Something else is noted. -/
theorem Logged.silent {r r' : Ref} {event : Event} (hsilent : ∀ i, event.marks i = false)
    (hnext : r'.next = r.next) (hlog : r'.log = r.log ++ [event]) : Logged r r' := by
  refine ⟨hnext.ge, [event], hlog, fun i => ?_⟩
  rw [if_neg (by omega), List.filter_cons_of_neg (by simp [hsilent i])]
  rfl

theorem logged_throw (running : List ℕ) (e : Exc) (r : Ref) : Logged r (r.throw running e).2 := by
  cases running with
  | nil => exact .refl r
  | cons i is => exact .silent (fun _ => rfl) rfl rfl

/-- The log of a `TRY`, from the log of its body. -/
theorem logged_try {r r₁ : Ref} {vars vars' : Vars}
    (h : Logged ⟨vars, r.next + 1, r.log ++ [.enter r.next]⟩ r₁) :
    Logged r ⟨vars', r₁.next, r₁.log ++ [.pop r.next, .finallyBody r.next]⟩ := by
  obtain ⟨hle, ev, hlog, hmarks⟩ := h
  have hle' : r.next + 1 ≤ r₁.next := hle
  refine ⟨by show r.next ≤ r₁.next; omega, .enter r.next :: (ev ++ [.pop r.next, .finallyBody r.next]), ?_,
    fun i => ?_⟩
  · rw [hlog]
    simp only [List.append_assoc, List.cons_append, List.nil_append]
  · simp only [List.filter_cons, List.filter_append, hmarks, Event.marks, List.filter_nil]
    by_cases hi : i = r.next
    · have hin : r.next ≤ i ∧ i < r₁.next := by omega
      have hout : ¬(r.next + 1 ≤ i ∧ i < r₁.next) := by omega
      subst hi
      simp only [beq_self_eq_true, if_true, if_pos hin, if_neg hout, List.nil_append]
    · have hi' : (i == r.next) = false := by simpa using hi
      simp only [hi', Bool.false_eq_true, if_false, List.append_nil]
      split_ifs <;> first | rfl | omega

theorem logged_eval {l : Bool} (s : Stmt l) (running : List ℕ) (r : Ref) :
    Logged r (eval s running r).2 := by
  induction s generalizing running r with
  | act a => exact .silent (fun _ => rfl) rfl rfl
  | seq s t hs ht =>
    have hfirst := hs running r
    rw [eval]
    rcases heval : eval s running r with ⟨out, r'⟩
    rw [heval] at hfirst
    cases out with
    | normal => exact hfirst.trans (ht running r')
    | _ => exact hfirst
  | cond c s t hs ht =>
    rw [eval]
    split_ifs
    · exact hs running r
    · exact ht running r
  | throw type val level msg => exact logged_throw _ _ _
  | rethrow x => exact logged_throw _ _ _
  | brk => exact .refl r
  | cont => exact .refl r
  | tryStmt x body fin handler hbody hfin hhandler =>
    rw [eval]
    have hbody' := hbody (r.next :: running)
      ⟨Function.update r.vars x Exc.none, r.next + 1, r.log ++ [.enter r.next]⟩
    rcases heval₁ : eval body (r.next :: running)
      ⟨Function.update r.vars x Exc.none, r.next + 1, r.log ++ [.enter r.next]⟩ with ⟨out, r₁⟩
    rw [heval₁] at hbody'
    have hfin' := (logged_try hbody').trans
      (hfin running ⟨out.caught x r₁.vars, r₁.next, r₁.log ++ [.pop r.next, .finallyBody r.next]⟩)
    rcases heval₂ : eval fin running
      ⟨out.caught x r₁.vars, r₁.next, r₁.log ++ [.pop r.next, .finallyBody r.next]⟩ with ⟨out₂, r₂⟩
    rw [heval₂] at hfin'
    simp only [heval₁, heval₂]
    cases out₂ with
    | normal =>
      by_cases hcaught : (r₂.vars x).type ≠ .noException
      · simp only [if_pos hcaught]
        have hcatch : Logged r₂ { r₂ with log := r₂.log ++ [.catchBody r.next] } :=
          .silent (fun _ => rfl) rfl rfl
        exact hfin'.trans (hcatch.trans (hhandler running _))
      · simp only [if_neg hcaught]
        exact hfin'
    | _ => exact hfin'

/-! ### Programs -/

/-- How a program ends whose statement is left so. -/
def Outcome.ending : Outcome → Halt
  | .thrown e => .outmost e
  | _ => .finished

/-- The addresses of the catchers. -/
def State.ids (st : State) : List ℕ := st.catchers.map Catcher.id

/-- **The exceptions are structured.** A program comes to its end as its meaning says, with the
same log and the same variables. On the way the machine never stops for another reason, and
where a statement is done, the catchers are those of before. -/
theorem exceptions_structured (s : Stmt false) (vars : Vars) :
    let out := (eval s [] ⟨vars, 0, []⟩).1
    let r := (eval s [] ⟨vars, 0, []⟩).2
    (∃ final, Steps (start s vars) final ∧ final.step = .error out.ending ∧ final.catchers = [] ∧
      final.vars = r.vars ∧ final.log = r.log) ∧
    (∀ st halt, Steps (start s vars) st → st.step = .error halt → halt = out.ending) ∧
    (∀ i, r.log.filter (Event.marks i) =
      if i < r.next then [.enter i, .pop i, .finallyBody i] else []) ∧
    ∀ (st st' : State) (l : Bool) (s' : Stmt l), Steps (start s vars) st → Steps st st' →
      st.todo = .stmt s' :: st'.todo → st'.ids = st.ids := by
  intro out r
  have hfinal : ∃ final, Steps (start s vars) final ∧ final.step = .error out.ending ∧
      final.catchers = [] ∧ final.vars = r.vars ∧ final.log = r.log := by
    obtain ⟨st, hsteps, hleaves⟩ := simulates s [] [] ⟨vars, 0, []⟩ (fun c hc => absurd hc List.not_mem_nil)
    refine ⟨st, hsteps, ?_⟩
    have hleaves' : Leaves [] [] out r st := hleaves
    cases hout : out with
    | thrown e =>
      rw [hout] at hleaves'
      obtain ⟨hstep, k', rfl⟩ := hleaves'
      exact ⟨hstep, rfl, rfl, rfl⟩
    | _ =>
      rw [hout] at hleaves'
      rw [show st = _ from hleaves']
      exact ⟨rfl, rfl, rfl, rfl⟩
  refine ⟨hfinal, ?_, ?_, ?_⟩
  · intro st halt hst hhalt
    obtain ⟨final, hsteps, hstep, -⟩ := hfinal
    rcases Relation.ReflTransGen.cases_head (hst.to_halt hsteps hstep) with rfl | ⟨c, hc, -⟩
    · rw [hstep] at hhalt
      exact (Except.error.inj hhalt).symm
    · rw [hhalt] at hc
      cases hc
  · intro i
    obtain ⟨-, events, hlog, hmarks⟩ := logged_eval s [] ⟨vars, 0, []⟩
    have hlog' : r.log = events := hlog
    rw [hlog', hmarks]
    simp only [Nat.zero_le, true_and]
    rfl
  · intro st st' l s' hst hst' htodo
    have hstart : (start s vars).Inv := State.inv_of_linked rfl
    have hinv := hstart.steps hst
    have hinv' := hinv.steps hst'
    unfold State.ids
    rw [hinv'.ids, hinv.ids, htodo]
    rfl

/-- An exception is thrown again in the `CATCH` of the inner `TRY`. -/
example : (eval (.tryStmt 0 (.tryStmt 1 (.throw .fileEnd 0 .lowest []) (.act 1) (.rethrow 1)) (.act 2)
    (.act 3) : Stmt false) [] ⟨fun _ => Exc.none, 0, []⟩).2.log.filterMap
      (fun | .act a => some a | _ => none) = [1, 2, 3] := by decide

end Snitchaser.Host
