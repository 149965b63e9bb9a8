/- digest: Every run of a map-reduce instance: it ends with a result only after one reduction, over
   one outcome for each element of the last input it took, in their order. -/

import LlmGraph.Flow.Runs
import Mathlib.Algebra.GroupWithZero.Nat

set_option autoImplicit false
set_option relaxedAutoImplicit false

namespace LlmGraph.Flow

open Lib (Attempt)
open Contract

variable {F G : Type} [Fields F] [Fields G]

/-- The states that the elements start from, one for each, in order. -/
private theorem initialStates_ok {limit : ℕ+} (elements : List G) {now first : Nat}
    {base : List (State G)} (hmade : initialStates limit now first elements = .ok base) :
    base.length = elements.length ∧ ∀ position < elements.length, ∃ fields state moment,
      elements[position]? = some fields ∧ base[position]? = some state ∧
        State.createWithLimit moment fields limit = .ok state := by
  induction elements generalizing now first base with
  | nil =>
      cases hmade
      exact ⟨rfl, fun _ himpossible => absurd himpossible (Nat.not_lt_zero _)⟩
  | cons fields rest hstep =>
      unfold initialStates at hmade
      split at hmade
      · cases hmade
      · cases hmade
      · rename_i state hcreated
        split at hmade
        · rename_i states hlater
          cases hmade
          obtain ⟨hsize, heach⟩ := hstep hlater
          refine ⟨congrArg (· + 1) hsize, fun position hinside => ?_⟩
          cases position with
          | zero => exact ⟨fields, state, now, rfl, rfl, hcreated⟩
          | succ position => exact heach position (Nat.lt_of_succ_lt_succ hinside)
        · cases hmade

section Stopped

/-- The fault of an instance that was created and is given no input. -/
def MapReduceError.unfed (position : Nat) (asked : InstanceId) (core : Core G) : MapReduceError :=
  if core.id ≠ asked then .InstanceIdMismatch position asked core.id else .InputRefused position

/-- The node stops with the error, and sends nothing else. -/
def World.StopsWith (world : World F G) (error : MapReduceError) : Prop :=
  ((∃ work, world.phase = .StopFailed work error) ∨
    world.phase = .Settling (.Failed error.display) ∨ world.phase = .Gone) ∧
  ∀ event, Effect.Sent event ∈ world.log → event = .Failed error.display

/-- What happens next is no creation of an instance. -/
private def Appends (world next : World F G) : Prop :=
  ∃ more, next.log = world.log ++ more ∧
    ∀ position asked core, Effect.Created position asked core ∉ more

variable {node : MapReduce F G} {world next : World F G}

private theorem Appends.same (hlog : next.log = world.log) : Appends world next :=
  ⟨[], by rw [hlog, List.append_nil], by simp⟩

private theorem Appends.record {effects : List (Effect F G)}
    (hnone : ∀ position asked core, Effect.Created position asked core ∉ effects) :
    Appends world (world.record effects) := ⟨effects, rfl, hnone⟩

private theorem Appends.trans {last : World F G} (hfirst : Appends world next)
    (hsecond : Appends next last) : Appends world last := by
  obtain ⟨more, hlog, hnone⟩ := hfirst
  obtain ⟨other, hlog', hnone'⟩ := hsecond
  refine ⟨more ++ other, by rw [hlog', hlog, List.append_assoc], ?_⟩
  intro position asked core hmem
  rcases List.mem_append.mp hmem with hmore | hother
  · exact hnone position asked core hmore
  · exact hnone' position asked core hother

private theorem appends_halt (world : World F G) (work : Work G) (halt : Halt) :
    Appends world (world.halt work halt) := by
  cases halt <;> exact .same rfl

private theorem appends_complete (world : World F G) (work : Work G)
    (id : Except Cause InstanceId) : Appends world (world.complete node work id) := by
  have hreduced : Appends world (world.record [.Reduced work.outcomes]) := .record (by simp)
  unfold World.complete
  split
  · split
    · exact .same rfl
    · split <;> exact .same rfl
  · split
    · split
      · exact .same rfl
      · dsimp only
        split
        · exact hreduced.trans (.same rfl)
        · exact hreduced.trans (.same rfl)
    · exact .same rfl

private theorem appends_joined {work : Work G} {position now : Nat} {goOn : Work G → World F G}
    (hjoined : world.joined node work position now goOn = some next)
    (hgoes : ∀ work, Appends world (goOn work)) : Appends world next := by
  obtain ⟨⟨received, left⟩, -, rfl⟩ := Option.map_eq_some_iff.mp hjoined
  dsimp only
  split
  · exact hgoes _
  · exact appends_halt world _ _
  · exact .same rfl

private theorem appends_task {choice : Choice G} (htaken : world.task node choice = some next) :
    Appends world next ∨ ∃ work asked core id, world.phase = .Creating work asked ∧
      next = world.created node work asked id (.ok core) := by
  have hhalts {condition : Bool} {work : Work G} {halt : Halt}
      (hhalted : (if condition then some (world.halt work halt) else none) = some next) :
      Appends world next := by
    split at hhalted
    · cases hhalted
      exact appends_halt world work halt
    · cases hhalted
  have hleaves {work : Work G} {position : Nat} {goes : Work G → World F G}
      (hleft : (work.joinFailed position).map goes = some next)
      (hsame : ∀ work, (goes work).log = world.log) : Appends world next := by
    obtain ⟨left, -, rfl⟩ := Option.map_eq_some_iff.mp hleft
    exact .same (hsame left)
  have hgoes {condition : Bool} {other : World F G}
      (hgone : (if condition then some other else none) = some next)
      (hsame : other.log = world.log) : Appends world next := by
    split at hgone
    · cases hgone
      exact .same hsame
    · cases hgone
  unfold World.task at htaken
  split at htaken
  · exact .inl (hgoes htaken rfl)
  · exact .inl (hgoes htaken rfl)
  · split at htaken <;> cases htaken <;> exact .inl (.same rfl)
  · cases htaken
    exact .inl (.same rfl)
  · cases htaken
    exact .inl (.same rfl)
  · split at htaken
    · cases htaken
      exact .inl (.same rfl)
    · split at htaken
      · cases htaken
        exact .inl (.same rfl)
      · cases htaken
        exact .inl (appends_complete world _ _)
  · exact .inl (hhalts htaken)
  · exact .inl (hhalts htaken)
  · exact .inl (hhalts htaken)
  · exact .inl (hhalts htaken)
  · exact .inl (hleaves htaken fun _ => rfl)
  · exact .inl (hleaves htaken fun _ => rfl)
  · exact .inl (appends_joined htaken fun _ => .same rfl)
  · exact .inl (appends_joined htaken fun _ => appends_complete world _ _)
  · rename_i work asked result id hphase
    cases htaken
    cases result with
    | ok core => exact .inr ⟨work, asked, core, id, hphase, rfl⟩
    | error cause => exact .inl (appends_halt world _ _)
    | panicked text => exact .inl (appends_halt world _ _)
  · exact .inl (hgoes htaken rfl)
  · obtain ⟨⟨received, left⟩, -, rfl⟩ := Option.map_eq_some_iff.mp htaken
    exact .inl (.same rfl)
  · exact .inl (hleaves htaken fun _ => rfl)
  · exact .inl (hgoes htaken rfl)
  · cases htaken
    exact .inl (.same rfl)
  · rename_i event _
    cases htaken
    unfold World.settle
    dsimp only
    split
    · exact .inl (.record (by simp))
    · exact .inl (.same rfl)
  · cases htaken

private theorem appends_listen {position : Nat} {waker : Waker}
    (hlistened : world.listen position waker = some next) : Appends world next := by
  unfold World.listen at hlistened
  obtain ⟨work, -, hlistened⟩ := Option.bind_eq_some_iff.mp hlistened
  obtain ⟨child, -, hlistened⟩ := Option.bind_eq_some_iff.mp hlistened
  split at hlistened
  · cases hlistened
  · dsimp only at hlistened
    split at hlistened
    · cases hlistened
      exact .same rfl
    · cases hlistened
      exact Appends.trans (.same rfl) (.record (by simp))

private theorem appends_step {label : Label F G} (htaken : world.step node label = some next) :
    Appends world next ∨ ∃ work asked core id, world.phase = .Creating work asked ∧
      next = world.created node work asked id (.ok core) := by
  have hown {action : Core.Action F} : Appends world (world.ownAct action) :=
    ⟨_, rfl, by simp⟩
  cases label with
  | Own action =>
      rw [World.step] at htaken
      split at htaken
      · cases htaken
        exact .inl hown
      · cases htaken
  | Watch key waker =>
      cases htaken
      exact .inl hown
  | Trigger =>
      cases htaken
      exact .inl (.same rfl)
  | Child position action =>
      rw [World.step] at htaken
      split at htaken
      · obtain ⟨work, -, hacted⟩ := Option.bind_eq_some_iff.mp htaken
        cases hacted
        exact .inl (.same rfl)
      · cases htaken
  | Listen position waker => exact .inl (appends_listen htaken)
  | Task choice => exact appends_task htaken

/-- A node that stops with an error goes on to send it, and nothing else. -/
private theorem stopsWith_step {error : MapReduceError} (hstops : world.StopsWith error)
    {label : Label F G} (htaken : world.step node label = some next) : next.StopsWith error := by
  obtain ⟨hphase, hsent⟩ := hstops
  have hquiet {other : World F G} {effects : List (Effect F G)}
      (hlog : other.log = world.log ++ effects) (hnone : ∀ event, Effect.Sent event ∉ effects) :
      ∀ event, Effect.Sent event ∈ other.log → event = .Failed error.display := by
    intro event hmem
    rw [hlog] at hmem
    exact hsent event ((List.mem_append.mp hmem).resolve_right (hnone event))
  have hsame {other : World F G} (hlog : other.log = world.log) :
      ∀ event, Effect.Sent event ∈ other.log → event = .Failed error.display :=
    hquiet (hlog.trans (List.append_nil _).symm) (by simp)
  have hchildren (children : List (Child G)) :
      (∃ work, world.phase.withChildren children = .StopFailed work error) ∨
        world.phase.withChildren children = .Settling (.Failed error.display) ∨
        world.phase.withChildren children = .Gone := by
    rcases hphase with ⟨work, hphase⟩ | hphase | hphase
    · rw [hphase]
      exact .inl ⟨_, rfl⟩
    · rw [hphase]
      exact .inr (.inl rfl)
    · rw [hphase]
      exact .inr (.inr rfl)
  have hown {action : Core.Action F} : (world.ownAct action).StopsWith error :=
    ⟨hphase, hquiet rfl (by simp)⟩
  cases label with
  | Own action =>
      rw [World.step] at htaken
      split at htaken
      · cases htaken
        exact hown
      · cases htaken
  | Watch key waker =>
      cases htaken
      exact hown
  | Trigger =>
      cases htaken
      exact ⟨hphase, hsame rfl⟩
  | Child position action =>
      rw [World.step] at htaken
      split at htaken
      · obtain ⟨work, -, hacted⟩ := Option.bind_eq_some_iff.mp htaken
        cases hacted
        exact ⟨hchildren _, hsame rfl⟩
      · cases htaken
  | Listen position waker =>
      have hlistened : world.listen position waker = some next := htaken
      unfold World.listen at hlistened
      obtain ⟨work, -, hlistened⟩ := Option.bind_eq_some_iff.mp hlistened
      obtain ⟨child, -, hlistened⟩ := Option.bind_eq_some_iff.mp hlistened
      split at hlistened
      · cases hlistened
      · dsimp only at hlistened
        split at hlistened
        · cases hlistened
          exact ⟨hchildren _, hsame rfl⟩
        · cases hlistened
          exact ⟨hchildren _, hquiet rfl (by simp)⟩
  | Task choice =>
      have hdone : world.task node choice = some next := htaken
      unfold World.task at hdone
      rcases hphase with ⟨work, hphase⟩ | hphase | hphase
      · rw [hphase] at hdone
        cases choice with
        | Shutdown =>
            cases hdone
            exact ⟨.inr (.inl rfl), hsame rfl⟩
        | _ => cases hdone
      · rw [hphase] at hdone
        cases choice with
        | Settle =>
            cases hdone
            unfold World.settle
            dsimp only
            split
            · refine ⟨.inr (.inr rfl), fun event hmem => ?_⟩
              rcases List.mem_append.mp hmem with hold | hnew
              · exact hsent event hold
              · cases List.mem_singleton.mp hnew
                rfl
            · exact ⟨.inr (.inr rfl), hsame rfl⟩
        | _ => cases hdone
      · rw [hphase] at hdone
        cases choice <;> cases hdone

/-- An instance that was created and is given no input has stopped the node. -/
private def Refusing (world : World F G) : Prop :=
  ∀ position asked core, Effect.Created position asked core ∈ world.log →
    (∀ input, Effect.Given position input ∉ world.log) →
      world.StopsWith (.unfed position asked core)

private theorem refusing_created {work : Work G} {asked : InstanceId}
    (hsound : world.Sound node) (hrefusing : Refusing world)
    (hphase : world.phase = .Creating work asked) (core : Core G) (id : Except Cause InstanceId) :
    Refusing (world.created node work asked id (.ok core)) := by
  obtain ⟨-, hunsent, hholds⟩ := hsound
  have hsilent := hunsent.resolve_left fun hgone => by
    rw [hphase] at hgone
    cases hgone
  rw [hphase] at hholds
  obtain ⟨-, hroom⟩ := hholds
  -- the only new instance is the one that was asked for
  have hnew {last : World F G} {position asked' : Nat} {core' : Core G}
      (happends : Appends (world.record [.Created work.next asked core]) last)
      (hmem : Effect.Created position asked' core' ∈ last.log)
      (hnone : ∀ input, Effect.Given position input ∉ last.log) :
      position = work.next ∧ asked' = asked ∧ core' = core := by
    obtain ⟨more, hlog, hcreated⟩ := happends
    rw [hlog] at hmem hnone
    rcases List.mem_append.mp hmem with hbefore | hmore
    · rcases List.mem_append.mp hbefore with hold | hlast
      · have hstops := hrefusing position asked' core' hold fun input hgiven =>
          hnone input (List.mem_append_left _ (List.mem_append_left _ hgiven))
        rcases hstops.1 with ⟨other, hother⟩ | hother | hother
        · rw [hphase] at hother
          cases hother
        · rw [hphase] at hother
          cases hother
        · rw [hphase] at hother
          cases hother
      · cases List.mem_singleton.mp hlast
        exact ⟨rfl, rfl, rfl⟩
    · exact absurd hmore (hcreated position asked' core')
  have hhalts {error : MapReduceError} :
      ((world.record [.Created work.next asked core]).halt work (.Fault error)).StopsWith error := by
    refine ⟨.inl ⟨_, rfl⟩, fun event hmem => ?_⟩
    rcases List.mem_append.mp hmem with hold | hlast
    · exact absurd hold (hsilent event)
    · cases List.mem_singleton.mp hlast
  intro position asked' core' hmem hnone
  rw [World.created] at hmem hnone ⊢
  split at hmem
  · rename_i hwrong
    rw [if_pos hwrong] at hnone ⊢
    obtain ⟨rfl, rfl, rfl⟩ := hnew (appends_halt _ _ _) hmem hnone
    rw [MapReduceError.unfed, if_pos hwrong]
    exact hhalts
  · rename_i hright
    rw [if_neg hright] at hnone ⊢
    have hstate : work.states[work.next]? = some work.states[work.next] :=
      List.getElem?_eq_getElem hroom
    rw [hstate] at hmem hnone ⊢
    dsimp only at hmem hnone ⊢
    cases hgiven : core.give ⟨0, work.states[work.next]⟩ with
    | none =>
        rw [hgiven] at hmem hnone
        obtain ⟨rfl, rfl, rfl⟩ := hnew (appends_halt _ _ _) hmem hnone
        rw [MapReduceError.unfed, if_neg hright]
        exact hhalts
    | some given =>
        rw [hgiven] at hmem hnone
        have hcomplete := @appends_complete _ _ _ _ node ((world.record
          [.Created work.next asked core]).record [.Given work.next ⟨0, work.states[work.next]⟩])
          { work with children := work.children ++ [⟨work.next, given.1, none⟩], next := work.next + 1 }
          id
        obtain ⟨rfl, -, -⟩ := hnew (Appends.trans (.record (by simp)) hcomplete) hmem hnone
        obtain ⟨more, hlog, -⟩ := hcomplete
        refine absurd ?_ (hnone ⟨0, work.states[work.next]⟩)
        rw [hlog]
        exact List.mem_append_left _ (List.mem_append_right _ List.mem_cons_self)

private theorem refusing_run (hsound : world.Sound node) (hrefusing : Refusing world)
    {labels : List (Label F G)} {last : World F G} (hran : world.run node labels = some last) :
    Refusing last := by
  induction labels generalizing world with
  | nil =>
      cases hran
      exact hrefusing
  | cons label later ih =>
      obtain ⟨next, htaken, hran⟩ := Option.bind_eq_some_iff.mp hran
      refine ih (hsound.step htaken) ?_ hran
      rcases appends_step htaken with ⟨more, hlog, hcreated⟩ | ⟨work, asked, core, id, hphase, rfl⟩
      · intro position asked core hmem hnone
        rw [hlog] at hmem hnone
        have hold := (List.mem_append.mp hmem).resolve_right (hcreated position asked core)
        exact stopsWith_step (hrefusing position asked core hold fun input hgiven =>
          hnone input (List.mem_append_left _ hgiven)) htaken
      · exact refusing_created hsound hrefusing hphase core id

end Stopped

/-- In every run of an instance of the node, whatever its elements' instances, its inputs and its
cancel token do: each element has at most one instance, which is given one input exactly when it
carries the identity asked for and takes inputs; where it is given none, the node stops with the
fault of that instance and sends nothing else. When the instance ends with a result, `reduce` was
called once, with one outcome for each element of the last input taken, in their order: the updated
state exactly when the element's instance ended with an update that could be applied, a failure
otherwise, and no failure in strict mode. -/
theorem map_reduce_delivers (node : MapReduce F G) (id : InstanceId) (labels : List (Label F G))
    (world : World F G) (hran : (World.opening id).run node labels = some world) :
    (∀ position, Orderly world.log position) ∧
    (∀ position asked core, Effect.Created position asked core ∈ world.log →
      (∀ input, Effect.Given position input ∉ world.log) →
        world.StopsWith (.unfed position asked core)) ∧
    ∀ update, Effect.Sent (.Result update) ∈ world.log → ∃ last elements outcomes,
      (acceptances world.log).getLast? = some (.Accepted last) ∧
      node.map last.state = some elements ∧
      reductions world.log = [.Reduced outcomes] ∧ node.reduce outcomes = some update ∧
      outcomes.length = elements.length ∧
      ∀ position < elements.length, ∃ fields state core received moment now,
        elements[position]? = some fields ∧
        State.createWithLimit moment fields node.internalSizeLimit = .ok state ∧
        concerning position world.log = [.Created position core.id core,
          .Given position ⟨0, state⟩, .Ended position received] ∧
        (∀ next, outcomes[position]? = some (.Done next) ↔
          ∃ update, received = .ok (.Result update) ∧ state.apply now update = .ok next) ∧
        ((∃ text, outcomes[position]? = some (.Failed text)) ↔
          ∀ update next, received = .ok (.Result update) → state.apply now update ≠ .ok next) ∧
        (node.faultMode = .Strict → ∃ next, outcomes[position]? = some (.Done next)) := by
  obtain ⟨horderly, hunsent, hholds⟩ := (World.opening_sound node id).run hran
  refine ⟨horderly, refusing_run (World.opening_sound node id)
    (by simp [Refusing, World.opening]) hran,
    fun update hsent => ?_⟩
  have hgone : world.phase = .Gone := hunsent.resolve_right fun hsilent => hsilent _ hsent
  rw [hgone] at hholds
  obtain ⟨base, outcomes, ⟨last, elements, now, haccepted, hmapped, hmade⟩, honce, hresult, hsize,
    haccounts⟩ := hholds.2 update hsent
  obtain ⟨hlong, heach⟩ := initialStates_ok elements hmade
  refine ⟨last, elements, outcomes, haccepted, hmapped, honce, hresult, hsize.trans hlong, ?_⟩
  intro position hinside
  obtain ⟨fields, state, moment, helement, hstart, hcreated⟩ := heach position hinside
  obtain ⟨received, then', state', hstart', ⟨core, state'', hstart'', -, heffects⟩, houtcome⟩ :=
    haccounts position (by rw [hlong]; exact hinside)
  rw [hstart] at hstart' hstart''
  cases hstart'
  cases hstart''
  refine ⟨fields, state, core, received, moment, then', helement, hcreated, heffects, ?_, ?_, ?_⟩
  · intro next
    rcases houtcome with ⟨update, done, hended, happlied, hkept⟩ | ⟨-, ⟨text, hkept⟩, hnever⟩
    · constructor
      · intro hsame
        rw [hkept] at hsame
        cases hsame
        exact ⟨update, hended, happlied⟩
      · rintro ⟨other, hended', happlied'⟩
        rw [hended] at hended'
        cases hended'
        rw [happlied] at happlied'
        cases happlied'
        exact hkept
    · constructor
      · intro hsame
        rw [hkept] at hsame
        cases hsame
      · rintro ⟨other, hended, happlied⟩
        exact absurd happlied (hnever other next hended)
  · rcases houtcome with ⟨update, done, hended, happlied, hkept⟩ | ⟨-, hfailed, hnever⟩
    · constructor
      · rintro ⟨text, hsame⟩
        rw [hkept] at hsame
        cases hsame
      · intro hnever
        exact absurd happlied (hnever update done hended)
    · exact ⟨fun _ => hnever, fun _ => hfailed⟩
  · intro hstrict
    rcases houtcome with ⟨update, done, hended, happlied, hkept⟩ | ⟨hlenient, -, -⟩
    · exact ⟨done, hkept⟩
    · rw [hstrict] at hlenient
      cases hlenient

section Samples

/-- Two elements, two at a time; the result counts what was done. -/
private def counting : MapReduce Tally Tally where
  name := "counting"
  map _ := some [⟨1⟩, ⟨2⟩]
  limit := ⟨2, Nat.two_pos⟩
  reduce outcomes := (some (outcomes.map fun
    | .Done state => state.fields.count
    | .Failed _ => 0).sum : Option Nat)
  internalSizeLimit := Tally.zero.limit
  faultMode := .NonStrict

private def begun : List (Label Tally Tally) :=
  [.Own (.Give ⟨0, Tally.zero⟩), .Task (.Next 0), .Task .Close, .Task .Drain,
    .Task (.Start 0 (.ok 10))]

/-- The second element ends first, with an update, and then the first one fails. -/
private def counted : World Tally Tally :=
  ((World.opening 1).run counting (begun ++
    [.Task (.Created (.ok (.new 10)) (.ok 11)), .Task (.Created (.ok (.new 11)) (.ok 12)),
      .Child 1 (.Finish (.Result (5 : Nat))), .Listen 1 0, .Task (.Joined 1 0 (.ok 12)),
      .Child 0 (.Finish (.Failed (.shows "boom"))), .Listen 0 0, .Task (.Joined 0 0 (.ok 12)),
      .Task .Settle])).get (by decide +kernel)

theorem map_reduce_delivers_counted : ∃ outcomes : List (ElementOutcome Tally),
    reductions counted.log = [.Reduced outcomes] ∧ outcomes.length = 2 ∧
      ∀ position, Orderly counted.log position := by
  have hsent : counted.log.any (fun
      | .Sent (.Result _) => true
      | _ => false) = true := by decide +kernel
  obtain ⟨effect, hamong, hresult⟩ := List.any_eq_true.mp hsent
  obtain ⟨horderly, -, hall⟩ := map_reduce_delivers counting 1 _ counted (Option.some_get _).symm
  rcases effect with _ | _ | _ | _ | _ | ⟨update | _ | _ | _⟩
  case Sent.Result =>
    obtain ⟨last, elements, outcomes, -, hmapped, honce, -, hsize, -⟩ := hall update hamong
    cases hmapped
    exact ⟨outcomes, honce, hsize, horderly⟩
  all_goals cases hresult

/-- The instance of an element carries another identity than the one asked for. -/
private def mistaken : World Tally Tally :=
  ((World.opening 1).run counting (begun ++ [.Task (.Created (.ok (.new 99)) (.ok 11))])).get
    (by decide +kernel)

/-- An instance that carries another identity than the one asked for is given no input. -/
theorem map_reduce_mistaken : ¬ ∀ (node : MapReduce Tally Tally) (id : InstanceId)
    (labels : List (Label Tally Tally)) (world : World Tally Tally),
    (World.opening id).run node labels = some world → ∀ position asked core,
      Effect.Created position asked core ∈ world.log →
        ∃ input, Effect.Given position input ∈ world.log := by
  intro hgiven
  have hcreated : mistaken.log.any (fun
      | .Created 0 _ _ => true
      | _ => false) = true := by decide +kernel
  have hnothing : mistaken.log.all (fun
      | .Given _ _ => false
      | _ => true) = true := by decide +kernel
  obtain ⟨effect, hamong, hcreated'⟩ := List.any_eq_true.mp hcreated
  rcases effect with _ | ⟨position, asked, core⟩ | _ | _ | _ | _
  case Created =>
    obtain ⟨input, hlisted⟩ := hgiven counting 1 _ mistaken (Option.some_get _).symm position asked
      core hamong
    have hnever := List.all_eq_true.mp hnothing _ hlisted
    cases hnever
  all_goals cases hcreated'

end Samples

end LlmGraph.Flow
