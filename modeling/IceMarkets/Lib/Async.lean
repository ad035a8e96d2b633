import IceMarkets.Lib.Run
import Mathlib.Logic.Relation

/-!
# IceMarkets.Lib.Async

A process that awaits one operation after another while the world around it changes,
may crash between any two of them, and starts again.

A program (`Prog`) is the tree of the operations it awaits: each is answered or fails,
and a failure that nothing catches ends the program. A `System` says how an operation
and how an event of the environment changes the world; `Step` runs the process in it.

`Discipline.wp` is the weakest precondition of a program under interference: what it
promises at an operation holds there wherever the operation is allowed, whatever the
environment did before. Its rules follow the program's constructors, and
`Discipline.run_world` concludes: where every program that can be started is safe, a run is
one of the world's own steps, each operation of it promised. What such steps keep needs no
program any more.

`play` runs a process by a script, for concrete runs.
-/

namespace Async

/-! ### Programs -/

/-- A program over operations `Op` with answers `Res`; `none` is a failed operation. -/
inductive Prog (Op : Type) (Res : Op → Type) (α : Type) : Type
  | ret (a : α)
  | fail
  | call (o : Op) (k : Option (Res o) → Prog Op Res α)

namespace Prog

variable {Op : Type} {Res : Op → Type} {α β : Type}

def bind (p : Prog Op Res α) (f : α → Prog Op Res β) : Prog Op Res β :=
  match p with
  | ret a => f a
  | fail => fail
  | call o k => call o fun r => (k r).bind f

/-- `p`, and `handler` where it fails. -/
def catch_ (p handler : Prog Op Res α) : Prog Op Res α :=
  match p with
  | ret a => ret a
  | fail => handler
  | call o k => call o fun r => (k r).catch_ handler

/-- One operation; its failure is the program's. -/
def await (o : Op) : Prog Op Res (Res o) :=
  call o fun
    | some r => ret r
    | none => fail

instance : Monad (Prog Op Res) where
  pure := ret
  bind := bind

/-- A value that may be missing: its absence fails the program. -/
def ofOption : Option α → Prog Op Res α
  | some a => ret a
  | none => fail

/-- One program for each item, in order. -/
def forEach (l : List β) (f : β → Prog Op Res Unit) : Prog Op Res Unit :=
  match l with
  | [] => ret ()
  | b :: l => (f b).bind fun _ => forEach l f

/-- What a program ends with, its operations answered by a function; none where it fails. -/
def eval (answer : ∀ o, Option (Res o)) (p : Prog Op Res α) : Option α :=
  match p with
  | ret a => some a
  | fail => none
  | call o k => (k (answer o)).eval answer

section Eval

variable {answer : ∀ o, Option (Res o)}

@[simp] theorem eval_ret (a : α) : (ret a : Prog Op Res α).eval answer = some a := rfl

@[simp] theorem eval_bind (p : Prog Op Res α) (f : α → Prog Op Res β) :
    (p.bind f).eval answer = (p.eval answer).bind fun a => (f a).eval answer := by
  induction p with
  | ret a => rfl
  | fail => rfl
  | call o k ih => exact ih (answer o)

@[simp] theorem eval_await (o : Op) :
    (await o : Prog Op Res (Res o)).eval answer = answer o := by
  unfold await eval
  cases answer o <;> rfl

@[simp] theorem eval_ofOption (o : Option α) :
    (ofOption o : Prog Op Res α).eval answer = o := by
  cases o <;> rfl

end Eval

end Prog

/-! ### Processes -/

/-- How the operations and the environment change the world. -/
structure System (Op : Type) (Res : Op → Type) (W Ev : Type) where
  exec : W → (o : Op) → Option (Res o) → W → Prop
  env : W → Ev → W → Prop

/-- What a step of the process or of the environment does. -/
inductive Act (Op C Ev : Type)
  | start (c : C)
  | call (o : Op)
  | finish
  | crash
  | env (e : Ev)

section Process

variable {Op : Type} {Res : Op → Type} {W Ev C : Type}

/-- A process between two steps: the world, and the program it is in. -/
abbrev Config (Op : Type) (Res : Op → Type) (W : Type) : Type := W × Option (Prog Op Res Unit)

/-- The process starts a program when it is in none. A crash loses the program. -/
inductive Step (S : System Op Res W Ev) (programs : C → Prog Op Res Unit) :
    Config Op Res W → Act Op C Ev → Config Op Res W → Prop
  | start (w : W) (c : C) : Step S programs (w, none) (.start c) (w, some (programs c))
  | call {w w' : W} {o : Op} {k : Option (Res o) → Prog Op Res Unit} {r : Option (Res o)}
      (exec : S.exec w o r w') : Step S programs (w, some (.call o k)) (.call o) (w', some (k r))
  | done (w : W) : Step S programs (w, some (.ret ())) .finish (w, none)
  | failed (w : W) : Step S programs (w, some .fail) .finish (w, none)
  | crash (w : W) (p : Prog Op Res Unit) : Step S programs (w, some p) .crash (w, none)
  | env {w w' : W} {e : Ev} (p : Option (Prog Op Res Unit)) (env : S.env w e w') :
      Step S programs (w, p) (.env e) (w', p)

/-- A step that `allowed` lets happen in the world before it. -/
def AllowedStep (S : System Op Res W Ev) (programs : C → Prog Op Res Unit)
    (allowed : W → Act Op C Ev → Prop) (s : Config Op Res W) (a : Act Op C Ev)
    (s' : Config Op Res W) :
    Prop :=
  allowed s.1 a ∧ Step S programs s a s'

end Process

/-! ### Reasoning under interference -/

/-- A system, the steps that are allowed, what the programs promise at an operation, and an
invariant that the environment and promised operations keep. -/
structure Discipline (Op : Type) (Res : Op → Type) (W Ev C : Type) where
  sys : System Op Res W Ev
  allowed : W → Act Op C Ev → Prop
  pre : W → Op → Prop
  inv : W → Prop
  inv_env : ∀ {w e w'}, inv w → allowed w (.env e) → sys.env w e w' → inv w'
  inv_call : ∀ {w o r w'}, inv w → allowed w (.call o) → pre w o → sys.exec w o r w' → inv w'

namespace Discipline

variable {Op : Type} {Res : Op → Type} {W Ev C : Type} {α β : Type} (D : Discipline Op Res W Ev C)

/-- Any number of allowed steps of the environment. -/
def Interference : W → W → Prop :=
  Relation.ReflTransGen fun w w' => ∃ e, D.allowed w (.env e) ∧ D.sys.env w e w'

/-- A fact that allowed steps of the environment keep. -/
def Stable (P : W → Prop) : Prop :=
  ∀ w e w', D.inv w → P w → D.allowed w (.env e) → D.sys.env w e w' → P w'

/-- Every allowed run of the program keeps its promises, ends with `Q` of its value, and with
`E` where it fails. -/
def wp (Q : α → W → Prop) (E : W → Prop) : Prog Op Res α → W → Prop
  | .ret a => Q a
  | .fail => E
  | .call o k => fun w => ∀ w₁, D.Interference w w₁ → D.allowed w₁ (.call o) →
      D.pre w₁ o ∧ ∀ r w₂, D.sys.exec w₁ o r w₂ → wp Q E (k r) w₂

variable {D} {P P' : W → Prop} {Q Q' : α → W → Prop} {E E' : W → Prop} {w w' : W}

theorem inv_interference (h : D.Interference w w') (hI : D.inv w) : D.inv w' := by
  induction h with
  | refl => exact hI
  | tail _ hstep ih =>
      obtain ⟨e, hok, henv⟩ := hstep
      exact D.inv_env ih hok henv

theorem Stable.interference (hP : D.Stable P) (h : D.Interference w w') (hI : D.inv w) (hw : P w) :
    P w' := by
  induction h with
  | refl => exact hw
  | tail hpre hstep ih =>
      obtain ⟨e, hok, henv⟩ := hstep
      exact hP _ e _ (inv_interference hpre hI) ih hok henv

theorem Stable.and (hP : D.Stable P) (hP' : D.Stable P') : D.Stable fun w => P w ∧ P' w :=
  fun w e w' hI h hok henv => ⟨hP w e w' hI h.1 hok henv, hP' w e w' hI h.2 hok henv⟩

/-- An operation awaited where a stable fact holds. -/
theorem wp_call {o : Op} {k : Option (Res o) → Prog Op Res α} (hP : D.Stable P)
    (hpre : ∀ w, D.inv w → D.allowed w (.call o) → P w → D.pre w o)
    (h : ∀ w r w', D.inv w → D.inv w' → D.allowed w (.call o) → P w → D.sys.exec w o r w' →
      D.wp Q E (k r) w')
    (hI : D.inv w) (hw : P w) : D.wp Q E (.call o k) w := by
  intro w₁ hint hok
  have hI₁ := inv_interference hint hI
  have hw₁ := hP.interference hint hI hw
  have hpre₁ := hpre w₁ hI₁ hok hw₁
  refine ⟨hpre₁, ?_⟩
  intro r w₂ hexec
  exact h w₁ r w₂ hI₁ (D.inv_call hI₁ hok hpre₁ hexec) hok hw₁ hexec

theorem wp_bind {p : Prog Op Res α} {f : α → Prog Op Res β} {Q : β → W → Prop} :
    D.wp Q E (p.bind f) w ↔ D.wp (fun a => D.wp Q E (f a)) E p w := by
  induction p generalizing w with
  | ret a => exact Iff.rfl
  | fail => exact Iff.rfl
  | call o k ih =>
      simp only [Prog.bind, wp, ih]

theorem wp_catch {p handler : Prog Op Res α} :
    D.wp Q E (p.catch_ handler) w ↔ D.wp Q (D.wp Q E handler) p w := by
  induction p generalizing w with
  | ret a => exact Iff.rfl
  | fail => exact Iff.rfl
  | call o k ih =>
      simp only [Prog.catch_, wp, ih]

theorem wp_mono (hQ : ∀ a w, D.inv w → Q a w → Q' a w) (hE : ∀ w, D.inv w → E w → E' w)
    {p : Prog Op Res α} (hI : D.inv w) (h : D.wp Q E p w) : D.wp Q' E' p w := by
  induction p generalizing w with
  | ret a => exact hQ a w hI h
  | fail => exact hE w hI h
  | call o k ih =>
      intro w₁ hint hok
      obtain ⟨hpre, hk⟩ := h w₁ hint hok
      refine ⟨hpre, ?_⟩
      intro r w₂ hexec
      have hI₂ := D.inv_call (inv_interference hint hI) hok hpre hexec
      exact ih r hI₂ (hk r w₂ hexec)

/-! #### Triples -/

/-- From the invariant and `P`, the program keeps its promises, and ends with `Q` or fails
with `E`. -/
def Triple (D : Discipline Op Res W Ev C) (P : W → Prop) (p : Prog Op Res α) (Q : α → W → Prop)
    (E : W → Prop) : Prop :=
  ∀ w, D.inv w → P w → D.wp Q E p w

theorem Triple.ret {a : α} (h : ∀ w, D.inv w → P w → Q a w) : D.Triple P (.ret a) Q E := h

theorem Triple.fail (h : ∀ w, D.inv w → P w → E w) : D.Triple P (.fail : Prog Op Res α) Q E := h

theorem Triple.bind {p : Prog Op Res α} {f : α → Prog Op Res β} {Q : β → W → Prop}
    {M : α → W → Prop}
    (hp : D.Triple P p M E) (hf : ∀ a, D.Triple (M a) (f a) Q E) : D.Triple P (p.bind f) Q E := by
  intro w hI hw
  rw [wp_bind]
  exact wp_mono (fun a w hI h => hf a w hI h) (fun _ _ h => h) hI (hp w hI hw)

theorem Triple.catch_ {p handler : Prog Op Res α} {F : W → Prop} (hp : D.Triple P p Q F)
    (hh : D.Triple F handler Q E) : D.Triple P (p.catch_ handler) Q E := by
  intro w hI hw
  rw [wp_catch]
  exact wp_mono (fun _ _ _ h => h) (fun w hI h => hh w hI h) hI (hp w hI hw)

theorem Triple.conseq {p : Prog Op Res α} (hp : D.Triple P' p Q' E')
    (hP : ∀ w, D.inv w → P w → P' w)
    (hQ : ∀ a w, D.inv w → Q' a w → Q a w) (hE : ∀ w, D.inv w → E' w → E w) : D.Triple P p Q E :=
  fun w hI hw => wp_mono hQ hE hI (hp w hI (hP w hI hw))

theorem Triple.pre {p : Prog Op Res α} {S : W → Prop} (hp : D.Triple S p Q E)
    (hP : ∀ w, D.inv w → P w → S w) : D.Triple P p Q E :=
  hp.conseq hP (fun _ _ _ h => h) fun _ _ h => h

/-- However it fails. -/
theorem Triple.any {p : Prog Op Res α} (hp : D.Triple P p Q E) : D.Triple P p Q fun _ => True :=
  hp.conseq (fun _ _ h => h) (fun _ _ _ h => h) fun _ _ _ => trivial

/-- A fact about the values, not the world, in the precondition. -/
theorem Triple.pure {p : Prog Op Res α} {c : Prop} (h : c → D.Triple P p Q E) :
    D.Triple (fun w => c ∧ P w) p Q E := fun w hI hw => h hw.1 w hI hw.2

/-- Awaiting one operation: what an answer gives, and what a failure leaves. -/
theorem Triple.call {o : Op} {k : Option (Res o) → Prog Op Res α} (M : Option (Res o) → W → Prop)
    (hP : D.Stable P) (hpre : ∀ w, D.inv w → D.allowed w (.call o) → P w → D.pre w o)
    (hexec : ∀ w r w', D.inv w → D.allowed w (.call o) → P w → D.sys.exec w o r w' → M r w')
    (hk : ∀ r, D.Triple (M r) (k r) Q E) : D.Triple P (.call o k) Q E := by
  intro w hI hw
  refine wp_call hP hpre ?_ hI hw
  intro w r w' hI hI' hok hw h
  exact hk r w' hI' (hexec w r w' hI hok hw h)

theorem Triple.await {o : Op} {Q : Res o → W → Prop} (hP : D.Stable P)
    (hpre : ∀ w, D.inv w → D.allowed w (.call o) → P w → D.pre w o)
    (hsome : ∀ w r w', D.inv w → D.allowed w (.call o) → P w → D.sys.exec w o (some r) w' → Q r w')
    (hnone : ∀ w w', D.inv w → D.allowed w (.call o) → P w → D.sys.exec w o none w' → E w') :
    D.Triple P (Prog.await o) Q E := by
  intro w hI hw
  refine wp_call hP hpre ?_ hI hw
  intro w r w' hI hI' hok hw h
  cases r with
  | some r => exact hsome w r w' hI hok hw h
  | none => exact hnone w w' hI hok hw h

theorem Triple.ofOption {x : Option α} (hsome : ∀ a, x = some a → ∀ w, D.inv w → P w → Q a w)
    (hnone : x = none → ∀ w, D.inv w → P w → E w) : D.Triple P (Prog.ofOption x) Q E := by
  cases x with
  | some a => exact hsome a rfl
  | none => exact hnone rfl

/-- A loop over a list: the fact between two rounds is about the items done. -/
theorem Triple.forEach {l : List β} {f : β → Prog Op Res Unit} {I : List β → W → Prop}
    (h : ∀ done b rest, l = done ++ b :: rest →
      D.Triple (I done) (f b) (fun _ => I (done ++ [b])) E) :
    D.Triple (I []) (Prog.forEach l f) (fun _ => I l) E := by
  have hrest : ∀ done rest, l = done ++ rest →
      D.Triple (I done) (Prog.forEach rest f) (fun _ => I l) E := by
    intro done rest
    induction rest generalizing done with
    | nil =>
        intro hl
        rw [List.append_nil] at hl
        rw [hl]
        exact Triple.ret fun _ _ hw => hw
    | cons b rest ih =>
        intro hl
        exact Triple.bind (h done b rest hl) fun _ => ih (done ++ [b]) (by simp [hl])
  exact hrest [] l rfl

/-! #### Runs -/

/-- A program that keeps its promises, however it ends. -/
def Safe (D : Discipline Op Res W Ev C) (p : Prog Op Res Unit) : W → Prop :=
  D.wp (fun _ _ => True) (fun _ => True) p

theorem Safe.env {p : Prog Op Res Unit} {e : Ev} (h : D.Safe p w) (hok : D.allowed w (.env e))
    (henv : D.sys.env w e w') : D.Safe p w' := by
  cases p with
  | ret a => trivial
  | fail => trivial
  | call o k =>
      intro w₁ hint
      exact h w₁ (.head ⟨e, hok, henv⟩ hint)

/-- What an allowed step does to the world, its operation promised. -/
def WorldStep (D : Discipline Op Res W Ev C) (w : W) (a : Act Op C Ev) (w' : W) : Prop :=
  D.inv w ∧ D.allowed w a ∧
    match a with
    | .call o => D.pre w o ∧ ∃ r, D.sys.exec w o r w'
    | .env e => D.sys.env w e w'
    | _ => w' = w

theorem WorldStep.inv {a : Act Op C Ev} (h : D.WorldStep w a w') : D.inv w' := by
  obtain ⟨hI, hok, h⟩ := h
  cases a with
  | start c => exact h ▸ hI
  | call o =>
      obtain ⟨hpre, r, hexec⟩ := h
      exact D.inv_call hI hok hpre hexec
  | finish => exact h ▸ hI
  | crash => exact h ▸ hI
  | env e => exact D.inv_env hI hok h

/-- A step of a process in a safe program. -/
theorem worldStep_of_step {programs : C → Prog Op Res Unit} {s s' : Config Op Res W}
    {a : Act Op C Ev}
    (hprog : ∀ c w, D.inv w → D.Safe (programs c) w)
    (h : AllowedStep D.sys programs D.allowed s a s') (hI : D.inv s.1)
    (hsafe : ∀ p, s.2 = some p → D.Safe p s.1) :
    D.WorldStep s.1 a s'.1 ∧ ∀ p, s'.2 = some p → D.Safe p s'.1 := by
  obtain ⟨hok, hstep⟩ := h
  cases hstep with
  | start w c =>
      refine ⟨⟨hI, hok, rfl⟩, ?_⟩
      intro p hp
      cases hp
      exact hprog c w hI
  | @call w w' o k r hexec =>
      obtain ⟨hpre, hk⟩ := hsafe _ rfl w .refl hok
      refine ⟨⟨hI, hok, hpre, r, hexec⟩, ?_⟩
      intro p hp
      cases hp
      exact hk r w' hexec
  | done w => exact ⟨⟨hI, hok, rfl⟩, nofun⟩
  | failed w => exact ⟨⟨hI, hok, rfl⟩, nofun⟩
  | crash w p => exact ⟨⟨hI, hok, rfl⟩, nofun⟩
  | env p henv => exact ⟨⟨hI, hok, henv⟩, fun q hq => (hsafe q hq).env hok henv⟩

/-- Where every program that can be started is safe, a run of allowed steps is a run of the
world's own. -/
theorem run_world {programs : C → Prog Op Res Unit} (hprog : ∀ c w, D.inv w → D.Safe (programs c) w)
    {s s' : Config Op Res W} {tr : List (Act Op C Ev)}
    (h : Lts.Run (AllowedStep D.sys programs D.allowed) s tr s') (hI : D.inv s.1)
    (hs : s.2 = none) :
    Lts.Run D.WorldStep s.1 tr s'.1 := by
  have hsafe : ∀ p, s.2 = some p → D.Safe p s.1 := by
    intro p hp
    rw [hs] at hp
    cases hp
  clear hs
  induction h with
  | nil s => exact .nil s.1
  | cons head _ ih =>
      obtain ⟨hworld, hsafe'⟩ := worldStep_of_step hprog head hI hsafe
      exact .cons hworld (ih hworld.inv hsafe')

end Discipline

/-! ### Scripts -/

section Script

variable {Op : Type} {Res : Op → Type} {W Ev C Reply : Type}

/-- A system that can be run: an operation's reply and an event say what happens, if it can. -/
structure Machine (Op : Type) (Res : Op → Type) (W Ev Reply : Type) where
  respond : W → (o : Op) → Reply → Option (Option (Res o) × W)
  event : W → Ev → Option W

def Machine.system (M : Machine Op Res W Ev Reply) : System Op Res W Ev where
  exec w o r w' := ∃ reply, M.respond w o reply = some (r, w')
  env w e w' := M.event w e = some w'

/-- What a script has happen next. -/
inductive Move (C Ev Reply : Type)
  | start (c : C)
  | reply (r : Reply)
  | finish
  | crash
  | env (e : Ev)

def Machine.move (M : Machine Op Res W Ev Reply) (programs : C → Prog Op Res Unit)
    (s : Config Op Res W) : Move C Ev Reply → Option (Act Op C Ev × Config Op Res W)
  | .start c =>
      match s.2 with
      | none => some (.start c, s.1, some (programs c))
      | some _ => none
  | .reply r =>
      match s.2 with
      | some (.call o k) => (M.respond s.1 o r).map fun x => (.call o, x.2, some (k x.1))
      | _ => none
  | .finish =>
      match s.2 with
      | some (.ret _) => some (.finish, s.1, none)
      | some .fail => some (.finish, s.1, none)
      | _ => none
  | .crash => s.2.map fun _ => (.crash, s.1, none)
  | .env e => (M.event s.1 e).map fun w => (.env e, w, s.2)

/-- Run a script: the acts and the end, if every move can happen and passes `ok`. -/
def Machine.play (M : Machine Op Res W Ev Reply) (programs : C → Prog Op Res Unit)
    (ok : W → Act Op C Ev → Bool) :
    List (Move C Ev Reply) → Config Op Res W → Option (List (Act Op C Ev) × Config Op Res W)
  | [], s => some ([], s)
  | m :: ms, s => do
      let (a, s') ← M.move programs s m
      guard (ok s.1 a)
      let (tr, s'') ← M.play programs ok ms s'
      some (a :: tr, s'')

variable {M : Machine Op Res W Ev Reply} {programs : C → Prog Op Res Unit} {s s' : Config Op Res W}

theorem Machine.step_of_move {m : Move C Ev Reply} {a : Act Op C Ev}
    (h : M.move programs s m = some (a, s')) : Step M.system programs s a s' := by
  obtain ⟨w, p⟩ := s
  cases m with
  | start c =>
      cases p with
      | none =>
          cases h
          exact .start w c
      | some p => cases h
  | reply r =>
      rcases p with _ | _ | _ | ⟨o, k⟩
      · cases h
      · cases h
      · cases h
      · obtain ⟨x, hx, heq⟩ := Option.map_eq_some_iff.mp h
        cases heq
        exact .call ⟨r, hx⟩
  | finish =>
      rcases p with _ | _ | _ | ⟨o, k⟩
      · cases h
      · cases h
        exact .done w
      · cases h
        exact .failed w
      · cases h
  | crash =>
      cases p with
      | none => cases h
      | some p =>
          cases h
          exact .crash w p
  | env e =>
      obtain ⟨w', hw', heq⟩ := Option.map_eq_some_iff.mp h
      cases heq
      exact .env p hw'

/-- What a script does is a run of the process. -/
theorem Machine.run_of_play {ok : W → Act Op C Ev → Bool} {allowed : W → Act Op C Ev → Prop}
    (hok : ∀ w a, ok w a = true → allowed w a) {ms : List (Move C Ev Reply)}
    {tr : List (Act Op C Ev)}
    (h : M.play programs ok ms s = some (tr, s')) :
    Lts.Run (AllowedStep M.system programs allowed) s tr s' := by
  induction ms generalizing s tr with
  | nil =>
      cases h
      exact .nil _
  | cons m ms ih =>
      obtain ⟨⟨a, t⟩, hmove, h⟩ := Option.bind_eq_some_iff.mp h
      obtain ⟨u, hguard, h⟩ := Option.bind_eq_some_iff.mp h
      obtain ⟨⟨tr', s''⟩, hplay, h⟩ := Option.bind_eq_some_iff.mp h
      cases h
      have ha : ok s.1 a = true := by
        by_contra hne
        simp [guard, hne] at hguard
      exact .cons ⟨hok _ _ ha, step_of_move hmove⟩ (ih hplay)

/-- A script that plays out, with what it comes to. -/
theorem Machine.exists_run {ok : W → Act Op C Ev → Bool} {allowed : W → Act Op C Ev → Prop}
    (hok : ∀ w a, ok w a = true → allowed w a) {ms : List (Move C Ev Reply)}
    {p : List (Act Op C Ev) → Config Op Res W → Bool}
    (h : (M.play programs ok ms s).any (fun x => p x.1 x.2) = true) :
    ∃ tr s', Lts.Run (AllowedStep M.system programs allowed) s tr s' ∧ p tr s' = true := by
  cases hplay : M.play programs ok ms s with
  | none =>
      rw [hplay] at h
      cases h
  | some x =>
      rw [hplay] at h
      exact ⟨x.1, x.2, run_of_play hok hplay, h⟩

end Script

end Async
