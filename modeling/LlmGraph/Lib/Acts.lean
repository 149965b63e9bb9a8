/- digest: Acts on a state that end with a value, with a stop or beyond the bound of a loop, and rules
   of pre- and postconditions for them. -/

set_option autoImplicit false
set_option relaxedAutoImplicit false

namespace LlmGraph.Lib

/-- How an act ends; `spent` is the bound that a loop of the model is given, run out. -/
inductive Ended (ε α : Type) where
  | done (value : α)
  | stop (reason : ε)
  | spent
  deriving DecidableEq, Repr

/-- An act on a state; a stop keeps the state that it leaves. -/
def Act (σ ε α : Type) := σ → Ended ε α × σ

namespace Act

variable {σ ε α β : Type}

/-- Go on with the value. -/
def bind (act : Act σ ε α) (next : α → Act σ ε β) : Act σ ε β := fun state =>
  match act state with
  | (.done value, state) => next value state
  | (.stop reason, state) => (.stop reason, state)
  | (.spent, state) => (.spent, state)

instance : Monad (Act σ ε) where
  pure value := fun state => (.done value, state)
  bind := bind

def get : Act σ ε σ := fun state => (.done state, state)

def modify (change : σ → σ) : Act σ ε Unit := fun state => (.done (), change state)

def stop (reason : ε) : Act σ ε α := fun state => (.stop reason, state)

def spent : Act σ ε α := fun state => (.spent, state)

/-- `?`: an error stops the act. -/
def ofExcept {δ : Type} (convert : δ → ε) : Except δ α → Act σ ε α
  | .ok value => pure value
  | .error error => stop (convert error)

/-- The act, with its stop told as a value. -/
def caught (act : Act σ ε α) : Act σ ε (Except ε α) := fun state =>
  match act state with
  | (.done value, state) => (.done (.ok value), state)
  | (.stop reason, state) => (.done (.error reason), state)
  | (.spent, state) => (.spent, state)

/-- What an act that is done has gone through. -/
theorem bind_done {act : Act σ ε α} {next : α → Act σ ε β} {state last : σ} {value : β}
    (hdone : (act >>= next) state = (.done value, last)) :
    ∃ middle after, act state = (.done middle, after) ∧ next middle after = (.done value, last) := by
  have hgoes : (act >>= next) state = Act.bind act next state := rfl
  rw [hgoes, Act.bind] at hdone
  split at hdone
  · rename_i middle after hact
    exact ⟨middle, after, hact, hdone⟩
  · cases hdone
  · cases hdone

/-- From a state of the precondition the act ends, with a value and the postcondition, or with a stop
and what is said of stops. -/
def Holds (pre : σ → Prop) (act : Act σ ε α) (post : α → σ → Prop) (exit : ε → σ → Prop) : Prop :=
  ∀ state, pre state →
    (∃ value next, act state = (.done value, next) ∧ post value next) ∨
      ∃ reason next, act state = (.stop reason, next) ∧ exit reason next

/-- However the act ends, it keeps an invariant. -/
def Keeps (inv : σ → Prop) (act : Act σ ε α) : Prop := Holds inv act (fun _ => inv) fun _ => inv

variable {pre : σ → Prop} {act : Act σ ε α} {post : α → σ → Prop} {exit : ε → σ → Prop}

namespace Holds

theorem pure {value : α} (hpost : ∀ state, pre state → post value state) :
    Holds pre (Pure.pure value : Act σ ε α) post exit :=
  fun state hpre => .inl ⟨value, state, rfl, hpost state hpre⟩

theorem bind {next : α → Act σ ε β} {last : β → σ → Prop} (mid : α → σ → Prop)
    (hfirst : Holds pre act mid exit) (hnext : ∀ value, Holds (mid value) (next value) last exit) :
    Holds pre (act >>= next) last exit := by
  intro state hpre
  have hgoes : (act >>= next) state = Act.bind act next state := rfl
  rw [hgoes, Act.bind]
  rcases hfirst state hpre with ⟨value, after, hact, hmid⟩ | ⟨reason, after, hact, hexit⟩
  · rw [hact]
    exact hnext value after hmid
  · rw [hact]
    exact .inr ⟨reason, after, rfl, hexit⟩

theorem modify {change : σ → σ} {post : Unit → σ → Prop}
    (hpost : ∀ state, pre state → post () (change state)) :
    Holds pre (Act.modify change : Act σ ε Unit) post exit :=
  fun state hpre => .inl ⟨(), change state, rfl, hpost state hpre⟩

theorem stop {reason : ε} (hexit : ∀ state, pre state → exit reason state) :
    Holds pre (Act.stop reason : Act σ ε α) post exit :=
  fun state hpre => .inr ⟨reason, state, rfl, hexit state hpre⟩

/-- The state that is read is the one the act goes on from. -/
theorem read {next : σ → Act σ ε β} {last : β → σ → Prop}
    (hnext : ∀ seen, pre seen → Holds (fun state => state = seen) (next seen) last exit) :
    Holds pre (Act.get >>= next) last exit :=
  fun state hpre => hnext state hpre state rfl

theorem ofExcept {δ : Type} {convert : δ → ε} {result : Except δ α}
    (hok : ∀ value, result = .ok value → ∀ state, pre state → post value state)
    (herror : ∀ error, result = .error error → ∀ state, pre state → exit (convert error) state) :
    Holds pre (Act.ofExcept convert result : Act σ ε α) post exit := by
  cases result with
  | ok value => exact .pure (hok value rfl)
  | error error => exact .stop (herror error rfl)

theorem imp {pre' : σ → Prop} {post' : α → σ → Prop} {exit' : ε → σ → Prop}
    (hholds : Holds pre act post exit) (hpre : ∀ state, pre' state → pre state)
    (hpost : ∀ value state, post value state → post' value state)
    (hexit : ∀ reason state, exit reason state → exit' reason state) :
    Holds pre' act post' exit' := by
  intro state hstate
  rcases hholds state (hpre state hstate) with ⟨value, next, hact, hends⟩ | ⟨reason, next, hact, hends⟩
  · exact .inl ⟨value, next, hact, hpost value next hends⟩
  · exact .inr ⟨reason, next, hact, hexit reason next hends⟩

/-- From a stronger precondition. -/
theorem weaken (pre strong : σ → Prop) (hholds : Holds pre act post exit)
    (hpre : ∀ state, strong state → pre state) : Holds strong act post exit :=
  fun state hstate => hholds state (hpre state hstate)

/-- A fact that does not depend on the state. -/
theorem given {fact : Prop} (hholds : fact → Holds pre act post exit) :
    Holds (fun state => fact ∧ pre state) act post exit :=
  fun state hpre => hholds hpre.1 state hpre.2

/-- Two facts about one act. -/
theorem and {post' : α → σ → Prop} {exit' : ε → σ → Prop} (hfirst : Holds pre act post exit)
    (hsecond : Holds pre act post' exit') :
    Holds pre act (fun value state => post value state ∧ post' value state)
      fun reason state => exit reason state ∧ exit' reason state := by
  intro state hpre
  rcases hfirst state hpre with ⟨value, next, hact, hends⟩ | ⟨reason, next, hact, hends⟩
  · rcases hsecond state hpre with ⟨value', next', hact', hends'⟩ | ⟨_, _, hact', -⟩
    · rw [hact] at hact'
      cases hact'
      exact .inl ⟨value, next, hact, hends, hends'⟩
    · rw [hact] at hact'
      cases hact'
  · rcases hsecond state hpre with ⟨_, _, hact', -⟩ | ⟨reason', next', hact', hends'⟩
    · rw [hact] at hact'
      cases hact'
    · rw [hact] at hact'
      cases hact'
      exact .inr ⟨reason, next, hact, hends, hends'⟩

/-- An act that is caught stops no more. -/
theorem caught {post' : Except ε α → σ → Prop} {exit' : ε → σ → Prop}
    (hholds : Holds pre act post exit) (hok : ∀ value state, post value state → post' (.ok value) state)
    (herror : ∀ reason state, exit reason state → post' (.error reason) state) :
    Holds pre act.caught post' exit' := by
  intro state hpre
  unfold Act.caught
  rcases hholds state hpre with ⟨value, next, hact, hends⟩ | ⟨reason, next, hact, hends⟩
  · rw [hact]
    exact .inl ⟨_, next, rfl, hok value next hends⟩
  · rw [hact]
    exact .inl ⟨_, next, rfl, herror reason next hends⟩

/-- How an act has ended that holds. -/
theorem ends (hholds : Holds pre act post exit) {state last : σ} (hpre : pre state) {ended : Ended ε α}
    (hact : act state = (ended, last)) :
    (∃ value, ended = .done value ∧ post value last) ∨ ∃ reason, ended = .stop reason ∧ exit reason last := by
  rcases hholds state hpre with ⟨value, next, hdone, hends⟩ | ⟨reason, next, hstop, hends⟩
  · rw [hdone] at hact
    cases hact
    exact .inl ⟨value, rfl, hends⟩
  · rw [hstop] at hact
    cases hact
    exact .inr ⟨reason, rfl, hends⟩

/-- The postcondition of an act that is done. -/
theorem done (hholds : Holds pre act post exit) {state last : σ} (hpre : pre state) {value : α}
    (hact : act state = (.done value, last)) : post value last := by
  rcases hholds.ends hpre hact with ⟨found, hdone, hpost⟩ | ⟨_, hstop, _⟩
  · cases hdone
    exact hpost
  · cases hstop

/-- What holds from each state that may be seen at the start. -/
theorem ghost (hseen : ∀ seen, pre seen → Holds (fun state => state = seen) act post exit) :
    Holds pre act post exit :=
  fun state hpre => hseen state hpre state rfl

end Holds

namespace Keeps

variable {inv : σ → Prop}

theorem pure {value : α} : Keeps inv (Pure.pure value : Act σ ε α) := Holds.pure fun _ hinv => hinv

theorem bind {next : α → Act σ ε β} (hfirst : Keeps inv act)
    (hnext : ∀ value, Keeps inv (next value)) : Keeps inv (act >>= next) :=
  Holds.bind (fun _ => inv) hfirst hnext

theorem ofExcept {δ : Type} {convert : δ → ε} {result : Except δ α} :
    Keeps inv (Act.ofExcept convert result : Act σ ε α) :=
  Holds.ofExcept (fun _ _ _ hinv => hinv) fun _ _ _ hinv => hinv

end Keeps

end Act

end LlmGraph.Lib
