/- digest: What holds of the elements of a map-reduce node while it works: each is begun once, in
   order, and what its instance ends with is kept in its place. -/

import Mathlib.Data.List.Nodup
import LlmGraph.Flow.MapReduce

set_option autoImplicit false
set_option relaxedAutoImplicit false

namespace LlmGraph.Flow

open Lib (Attempt)
open Contract

variable {F G : Type} [Fields F] [Fields G]

section Effects

namespace Effect

/-- The effects at the instance of one element. -/
def concerns (position : Nat) : Effect F G → Bool
  | Created other _ _ | Given other _ | Ended other _ => other == position
  | Accepted _ | Reduced _ | Sent _ => false

def isReduced : Effect F G → Bool
  | Reduced _ => true
  | _ => false

def isAccepted : Effect F G → Bool
  | Accepted _ => true
  | _ => false

end Effect

/-- What happens at the instance of one element, in order. -/
def concerning (position : Nat) (log : List (Effect F G)) : List (Effect F G) :=
  log.filter (·.concerns position)

/-- The calls of `reduce`. -/
def reductions (log : List (Effect F G)) : List (Effect F G) := log.filter (·.isReduced)

/-- The inputs that the instance took. -/
def acceptances (log : List (Effect F G)) : List (Effect F G) := log.filter (·.isAccepted)

variable {position : Nat} {log more : List (Effect F G)}

@[simp] theorem concerning_append : concerning position (log ++ more) =
    concerning position log ++ concerning position more := List.filter_append _ _

@[simp] theorem reductions_append : reductions (log ++ more) = reductions log ++ reductions more :=
  List.filter_append _ _

@[simp] theorem acceptances_append :
    acceptances (log ++ more) = acceptances log ++ acceptances more := List.filter_append _ _

end Effects

section Children

/-- What happened at the instance of a child, up to what it has received. -/
def Child.effects (child : Child G) : List (Effect F G) :=
  child.received.toList.map (Effect.Ended child.position)

/-- An element is begun: an instance was created for it under the identity asked for, which has
taken the element's state as its one input; `tail` is what happened after. -/
def Begun (base : List (State G)) (log : List (Effect F G)) (position : Nat)
    (tail : List (Effect F G)) : Prop :=
  ∃ core state, base[position]? = some state ∧ core.acceptsInput = true ∧
    concerning position log =
      [.Created position core.id core, .Given position ⟨0, state⟩] ++ tail

/-- The children listen to elements that are begun, each to one of its own. -/
structure Listening (base : List (State G)) (log : List (Effect F G)) (children : List (Child G)) :
    Prop where
  distinct : (children.map Child.position).Nodup
  begun : ∀ child ∈ children, Begun base log child.position child.effects

variable {base : List (State G)} {log : List (Effect F G)} {children : List (Child G)}

/-- What does not concern an element changes nothing of it. -/
theorem Begun.frame {position : Nat} {tail more : List (Effect F G)}
    (hbegun : Begun base log position tail) (hother : concerning position more = []) :
    Begun base (log ++ more) position tail := by
  obtain ⟨core, state, hhere, haccepts, hsame⟩ := hbegun
  refine ⟨core, state, hhere, haccepts, ?_⟩
  rw [concerning_append, hother, List.append_nil]
  exact hsame

theorem Listening.frame {more : List (Effect F G)} (hlistening : Listening base log children)
    (hother : ∀ position, concerning position more = []) : Listening base (log ++ more) children :=
  ⟨hlistening.distinct, fun child hmember => (hlistening.begun child hmember).frame (hother _)⟩

/-- A child that is taken out leaves the others listening. -/
theorem Listening.leave (hlistening : Listening base log children) (position : Nat) :
    Listening base log (children.filter (·.position != position)) := by
  refine ⟨hlistening.distinct.sublist (List.filter_sublist.map _), ?_⟩
  intro child hmember
  exact hlistening.begun child (List.mem_of_mem_filter hmember)

private theorem positions_map {f : Child G → Child G} (hsame : ∀ child ∈ children,
    (f child).position = child.position) :
    (children.map f).map Child.position = children.map Child.position := by
  rw [List.map_map]
  exact List.map_congr_left hsame

/-- What changes neither the places of the children nor what they have received is not seen by the
node. -/
theorem Listening.act (hlistening : Listening base log children) (f : Child G → Child G)
    (hsame : ∀ child ∈ children, (f child).position = child.position ∧
      (f child).received = child.received) : Listening base log (children.map f) := by
  have hplaces := positions_map fun child hmember => (hsame child hmember).1
  refine ⟨by rw [hplaces]; exact hlistening.distinct, ?_⟩
  intro child hmember
  obtain ⟨old, hamong, rfl⟩ := List.mem_map.mp hmember
  unfold Child.effects
  rw [(hsame old hamong).1, (hsame old hamong).2]
  exact hlistening.begun old hamong

/-- A child that receives what its instance ended with. -/
theorem Listening.listen (hlistening : Listening base log children) {child : Child G}
    (hmember : child ∈ children) (hsilent : child.received = none) (core : Core G)
    (received : Received G) :
    Listening base (log ++ [.Ended child.position received]) (children.map fun other =>
      if other.position = child.position then { other with core, received := some received }
      else other) := by
  have hplaces := @positions_map _ _ children (fun other => if other.position = child.position then
    { other with core, received := some received } else other) (by
      intro other _
      split
      · rfl
      · rfl)
  refine ⟨by rw [hplaces]; exact hlistening.distinct, ?_⟩
  intro next hfound
  obtain ⟨old, hamong, rfl⟩ := List.mem_map.mp hfound
  have hbegun := hlistening.begun old hamong
  by_cases hhere : old.position = child.position
  · have hone : old = child := List.inj_on_of_nodup_map hlistening.distinct hamong hmember hhere
    subst hone
    rw [if_pos rfl]
    obtain ⟨asked, state, helement, haccepts, heffects⟩ := hbegun
    refine ⟨asked, state, helement, haccepts, ?_⟩
    rw [concerning_append, heffects]
    simp [Child.effects, hsilent, concerning, Effect.concerns]
  · rw [if_neg hhere]
    refine hbegun.frame ?_
    have hother : (child.position == old.position) = false := by
      simpa using fun hequal => hhere hequal.symm
    simp [concerning, Effect.concerns, hother]

end Children

namespace Work

/-- What an element's instance ended with is kept in its place: the updated state, or, in a node
that is not strict, the text of the failure. -/
def Settles (node : MapReduce F G) (base : List (State G)) (work : Work G) (position : Nat)
    (received : Received G) (now : Nat) : Prop :=
  ∃ state, base[position]? = some state ∧
    ((∃ update next, received = .ok (.Result update) ∧ state.apply now update = .ok next ∧
        work.states[position]? = some next ∧ work.failures[position]? = some none) ∨
      node.faultMode = .NonStrict ∧ (∃ text, work.failures[position]? = some (some text)) ∧
        ∀ update next, received = .ok (.Result update) → state.apply now update ≠ .ok next)

/-- The work on the elements of a list: those before `next` are begun, and each of them is listened
to or settled. -/
structure Sound (node : MapReduce F G) (base : List (State G)) (log : List (Effect F G))
    (work : Work G) : Prop where
  states : work.states.length = base.length
  failures : work.failures.length = base.length
  next : work.next ≤ base.length
  listening : Listening base log work.children
  below : ∀ child ∈ work.children, child.position < work.next
  fresh : ∀ position, work.next ≤ position → concerning position log = []
  kept : ∀ position < base.length, work.next ≤ position ∨ position ∈ work.children.map Child.position →
    work.states[position]? = base[position]? ∧ work.failures[position]? = some none
  settled : ∀ position < work.next, position ∉ work.children.map Child.position →
    ∃ received now, Begun base log position [.Ended position received] ∧
      work.Settles node base position received now

variable {node : MapReduce F G} {base : List (State G)} {log : List (Effect F G)} {work : Work G}

theorem sound_start (hquiet : ∀ position, concerning position log = []) :
    (Work.start base).Sound node base log where
  states := rfl
  failures := List.length_replicate
  next := Nat.zero_le _
  listening := ⟨List.nodup_nil, fun _ hmember => by cases hmember⟩
  below _ hmember := by cases hmember
  fresh position _ := hquiet position
  kept position hinside _ := by
    refine ⟨rfl, ?_⟩
    have hbound : position < (List.replicate base.length (none : Option String)).length := by
      rw [List.length_replicate]
      exact hinside
    show (List.replicate base.length (none : Option String))[position]? = some none
    rw [List.getElem?_eq_getElem hbound, List.getElem_replicate]
  settled _ hbelow _ := absurd hbelow (Nat.not_lt_zero _)

/-- The children change, and what each of them listens to does not. -/
theorem Sound.children (hsound : work.Sound node base log) {children : List (Child G)}
    {more : List (Effect F G)} (hlistening : Listening base (log ++ more) children)
    (hsame : children.map Child.position = work.children.map Child.position)
    (htheirs : ∀ position, position ∉ work.children.map Child.position →
      concerning position more = []) :
    ({ work with children } : Work G).Sound node base (log ++ more) where
  states := hsound.states
  failures := hsound.failures
  next := hsound.next
  listening := hlistening
  below child hmember := by
    have hlisted : child.position ∈ work.children.map Child.position := by
      rw [← hsame]
      exact List.mem_map_of_mem hmember
    obtain ⟨old, hamong, hequal⟩ := List.mem_map.mp hlisted
    exact hequal ▸ hsound.below old hamong
  fresh position hafter := by
    rw [concerning_append, hsound.fresh position hafter, htheirs]
    · rfl
    · intro hlisted
      obtain ⟨old, hamong, rfl⟩ := List.mem_map.mp hlisted
      exact absurd (hsound.below old hamong) (Nat.not_lt.mpr hafter)
  kept position hinside hpending := hsound.kept position hinside (by rw [← hsame]; exact hpending)
  settled position hbefore habsent := by
    rw [hsame] at habsent
    obtain ⟨received, now, hbegun, hsettles⟩ := hsound.settled position hbefore habsent
    exact ⟨received, now, hbegun.frame (htheirs position habsent), hsettles⟩

/-- A new instance takes the next element, and a child listens to it. -/
theorem Sound.give (hsound : work.Sound node base log) {core given : Core G} {state : State G}
    (helement : work.states[work.next]? = some state) (haccepts : core.acceptsInput = true) :
    ({ work with
        children := work.children ++ [⟨work.next, given, none⟩], next := work.next + 1 } :
      Work G).Sound node base
      (log ++ [.Created work.next core.id core] ++ [.Given work.next ⟨0, state⟩]) := by
  have hinside : work.next < base.length := by
    rw [← hsound.states]
    exact (List.getElem?_eq_some_iff.mp helement).1
  have hhere : base[work.next]? = some state := by
    rw [← (hsound.kept work.next hinside (Or.inl (Nat.le_refl _))).1]
    exact helement
  have hother : ∀ position, position ≠ work.next → concerning position
      ([.Created work.next core.id core, .Given work.next ⟨0, state⟩] : List (Effect F G)) = [] := by
    intro position hdiffers
    have hunequal : (work.next == position) = false := by
      simpa using fun hequal => hdiffers hequal.symm
    simp [concerning, Effect.concerns, hunequal]
  have hlisted : ∀ position, position ∈ (work.children ++
      [(⟨work.next, given, none⟩ : Child G)]).map Child.position ↔ position ∈ work.children.map Child.position ∨ position = work.next := by
    intro position
    rw [List.map_append, List.mem_append]
    simp
  have hold : ∀ child ∈ work.children, child.position ≠ work.next := by
    intro child hmember
    have hbefore := hsound.below child hmember
    omega
  rw [List.append_assoc]
  refine ⟨hsound.states, hsound.failures, hinside, ⟨?_, ?_⟩, ?_, ?_, ?_, ?_⟩
  · dsimp only
    rw [List.map_append]
    refine List.nodup_append.mpr ⟨hsound.listening.distinct, List.nodup_singleton _, ?_⟩
    intro position hmember last hsingle
    cases List.mem_singleton.mp hsingle
    obtain ⟨child, hamong, rfl⟩ := List.mem_map.mp hmember
    exact hold child hamong
  · intro child hmember
    rcases List.mem_append.mp hmember with hbefore | hnew
    · exact (hsound.listening.begun child hbefore).frame (hother _ (hold child hbefore))
    · cases List.mem_singleton.mp hnew
      refine ⟨core, state, hhere, haccepts, ?_⟩
      rw [concerning_append, hsound.fresh work.next (Nat.le_refl _)]
      simp [concerning, Effect.concerns, Child.effects]
  · intro child hmember
    rcases List.mem_append.mp hmember with hbefore | hnew
    · exact Nat.lt_succ_of_lt (hsound.below child hbefore)
    · cases List.mem_singleton.mp hnew
      exact Nat.lt_succ_self _
  · intro position hafter
    dsimp only at hafter
    have hlater : work.next ≤ position := by omega
    have hdiffers : position ≠ work.next := by omega
    rw [concerning_append, hsound.fresh position hlater]
    exact hother position hdiffers
  · intro position hbound hpending
    refine hsound.kept position hbound ?_
    rcases hpending with hafter | hmember
    · exact Or.inl (Nat.le_of_succ_le hafter)
    · rcases (hlisted position).mp hmember with hmember | rfl
      · exact Or.inr hmember
      · exact Or.inl (Nat.le_refl _)
  · intro position hbefore habsent
    have habsent' := fun hmember => habsent ((hlisted position).mpr hmember)
    have hdiffers : position ≠ work.next := fun hequal => habsent' (Or.inr hequal)
    dsimp only at hbefore
    have hearlier : position < work.next := by omega
    obtain ⟨received, now, hbegun, hsettles⟩ :=
      hsound.settled position hearlier fun hmember => habsent' (Or.inl hmember)
    exact ⟨received, now, hbegun.frame (hother position hdiffers), hsettles⟩

/-- What a child that joins has received, and the work that is left without it. -/
theorem join_some {position : Nat} {received : Received G} {left : Work G}
    (hjoined : work.join position = some (received, left)) :
    ∃ child ∈ work.children, child.position = position ∧ child.received = some received ∧
      left = { work with children := work.children.filter (·.position != position) } := by
  unfold join at hjoined
  obtain ⟨child, hfound, hrest⟩ := Option.bind_eq_some_iff.mp hjoined
  obtain ⟨ended, hkept, hlast⟩ := Option.bind_eq_some_iff.mp hrest
  cases hlast
  exact ⟨child, List.mem_of_find?_eq_some hfound, by simpa using List.find?_some hfound, hkept, rfl⟩

/-- `receive` goes on with the updated state in its place, or, in a node that is not strict, with
the text of the failure. -/
theorem receive_ok {cancelled : Bool} {now position : Nat} {received : Received G} {next : Work G}
    (hended : work.receive node.faultMode cancelled now position received = .ok next) :
    (∃ update state fresh, received = .ok (.Result update) ∧ work.states[position]? = some state ∧
      state.apply now update = .ok fresh ∧
        next = { work with states := work.states.set position fresh }) ∨
    (node.faultMode = .NonStrict ∧
      (∃ text, next = { work with failures := work.failures.set position (some text) }) ∧
      ∀ update state fresh, received = .ok (.Result update) → work.states[position]? = some state →
        state.apply now update ≠ .ok fresh) := by
  have hfaults : ∀ error, work.elementEnd cancelled now position received = .error (.Fault error) →
      node.faultMode = .NonStrict ∧
        ∃ text, next = { work with failures := work.failures.set position (some text) } := by
    intro error hfault
    unfold receive at hended
    rw [hfault] at hended
    dsimp only at hended
    split at hended
    · rename_i hlenient
      split at hended
      · cases hended
        exact ⟨hlenient, _, rfl⟩
      · cases hended
    · cases hended
  rcases received with error | update | cause | reason | _
  · exact Or.inr ⟨(hfaults _ rfl).1, (hfaults _ rfl).2, by intro _ _ _ himpossible; cases himpossible⟩
  · rcases helement : work.states[position]? with _ | state
    · have hended' : work.elementEnd cancelled now position (.ok (.Result update)) =
          .panicked "index out of bounds" := by
        simp only [elementEnd, helement]
      unfold receive at hended
      rw [hended'] at hended
      cases hended
    · rcases happlied : state.apply now update with fresh | error | text
      · have hended' : work.elementEnd cancelled now position (.ok (.Result update)) =
            .ok { work with states := work.states.set position fresh } := by
          simp only [elementEnd, helement, happlied]
        unfold receive at hended
        rw [hended'] at hended
        cases hended
        exact Or.inl ⟨update, state, fresh, rfl, rfl, happlied, rfl⟩
      · have hfault := hfaults (.UpdateRejected position error.display)
          (by simp only [elementEnd, helement, happlied])
        refine Or.inr ⟨hfault.1, hfault.2, ?_⟩
        intro other state' fresh hsame helement'
        cases hsame
        cases helement'
        rw [happlied]
        exact fun himpossible => by cases himpossible
      · have hfault := hfaults (.UpdateRejected position text)
          (by simp only [elementEnd, helement, happlied])
        refine Or.inr ⟨hfault.1, hfault.2, ?_⟩
        intro other state' fresh hsame helement'
        cases hsame
        cases helement'
        rw [happlied]
        exact fun himpossible => by cases himpossible
  · exact Or.inr ⟨(hfaults _ rfl).1, (hfaults _ rfl).2, by intro _ _ _ himpossible; cases himpossible⟩
  · exact Or.inr ⟨(hfaults _ rfl).1, (hfaults _ rfl).2, by intro _ _ _ himpossible; cases himpossible⟩
  · by_cases htriggered : (cancelled || work.triggered) = true
    · have hended' : work.elementEnd cancelled now position (.ok .Cancelled) = .error .Cancel := by
        simp only [elementEnd, if_pos htriggered]
      unfold receive at hended
      rw [hended'] at hended
      cases hended
    · have hfault := hfaults (.InternalCancelled position)
        (by simp only [elementEnd, if_neg htriggered])
      exact Or.inr ⟨hfault.1, hfault.2, by intro _ _ _ himpossible; cases himpossible⟩

/-- A child that joins leaves its element settled. -/
theorem Sound.receive {position now : Nat} {cancelled : Bool} {received : Received G}
    {left next : Work G} (hsound : work.Sound node base log)
    (hjoined : work.join position = some (received, left))
    (hended : left.receive node.faultMode cancelled now position received = .ok next) :
    next.Sound node base log := by
  obtain ⟨child, hmember, rfl, hready, rfl⟩ := join_some hjoined
  have hlisted : child.position ∈ work.children.map Child.position := List.mem_map_of_mem hmember
  have hbefore := hsound.below child hmember
  have hinside : child.position < base.length := Nat.lt_of_lt_of_le hbefore hsound.next
  obtain ⟨hheld, hunfailed⟩ := hsound.kept child.position hinside (Or.inr hlisted)
  obtain ⟨state, helement⟩ : ∃ state, base[child.position]? = some state :=
    ⟨_, List.getElem?_eq_getElem hinside⟩
  have hbegun := hsound.listening.begun child hmember
  rw [Child.effects, hready] at hbegun
  have hgone : ∀ other, other ∈ (work.children.filter (·.position != child.position)).map
      Child.position ↔ other ∈ work.children.map Child.position ∧ other ≠ child.position := by
    intro other
    constructor
    · intro hfound
      obtain ⟨old, hamong, rfl⟩ := List.mem_map.mp hfound
      obtain ⟨hold', hdiffers⟩ := List.mem_filter.mp hamong
      exact ⟨List.mem_map_of_mem hold', by simpa using hdiffers⟩
    · rintro ⟨hfound, hdiffers⟩
      obtain ⟨old, hamong, rfl⟩ := List.mem_map.mp hfound
      exact List.mem_map_of_mem (List.mem_filter.mpr ⟨hamong, by simpa using hdiffers⟩)
  -- Both ways to go on put one value at the child's position and keep the rest.
  have hsettle : ∀ states failures, states.length = base.length → failures.length = base.length →
      (∀ other, other ≠ child.position → states[other]? = work.states[other]? ∧
        failures[other]? = work.failures[other]?) →
      Settles node base ⟨work.triggered, states, failures, work.children, work.next⟩
        child.position received now →
      Sound node base log ⟨work.triggered, states, failures,
        work.children.filter (·.position != child.position), work.next⟩ := by
    intro states failures hlong hlong' hothers hsettles
    refine ⟨hlong, hlong', hsound.next, hsound.listening.leave _, ?_, hsound.fresh, ?_, ?_⟩
    · intro other hamong
      exact hsound.below other (List.mem_of_mem_filter hamong)
    · intro other hbound hpending
      have hdiffers : other ≠ child.position := by
        rcases hpending with hafter | hamong
        · have hlate : work.next ≤ other := hafter
          omega
        · exact ((hgone other).mp hamong).2
      rw [(hothers other hdiffers).1, (hothers other hdiffers).2]
      exact hsound.kept other hbound (hpending.imp_right fun hamong => ((hgone other).mp hamong).1)
    · intro other hearly habsent
      by_cases hsame : other = child.position
      · subst hsame
        exact ⟨received, now, hbegun, hsettles⟩
      · obtain ⟨ended, moment, hstarted, hdone⟩ := hsound.settled other hearly
          fun hamong => habsent ((hgone other).mpr ⟨hamong, hsame⟩)
        refine ⟨ended, moment, hstarted, ?_⟩
        unfold Settles at hdone ⊢
        dsimp only
        rw [(hothers other hsame).1, (hothers other hsame).2]
        exact hdone
  rcases receive_ok hended with ⟨update, old, fresh, hresult, hhere, happlied, rfl⟩ |
    ⟨hlenient, ⟨text, rfl⟩, hfailed⟩
  · have hsame : old = state := by
      have hboth : some old = some state := by
        rw [← hhere, ← helement]
        exact hheld
      exact Option.some.inj hboth
    subst hsame
    refine hsettle _ _ (by rw [List.length_set]; exact hsound.states) hsound.failures ?_ ?_
    · intro other hdiffers
      exact ⟨List.getElem?_set_ne (Ne.symm hdiffers), rfl⟩
    · refine ⟨old, helement, Or.inl ⟨update, fresh, hresult, happlied, ?_, hunfailed⟩⟩
      exact List.getElem?_set_self (by rw [hsound.states]; exact hinside)
  · refine hsettle _ _ hsound.states (by rw [List.length_set]; exact hsound.failures) ?_ ?_
    · intro other hdiffers
      exact ⟨rfl, List.getElem?_set_ne (Ne.symm hdiffers)⟩
    · refine ⟨state, helement, Or.inr ⟨hlenient, ⟨text, ?_⟩, ?_⟩⟩
      · exact List.getElem?_set_self (by rw [hsound.failures]; exact hinside)
      · intro update fresh hresult
        exact hfailed update state fresh hresult (by rw [← helement]; exact hheld)

/-- What the outcomes say once nothing is left to do. -/
theorem Sound.outcomes (hsound : work.Sound node base log) (hidle : work.children = [])
    (hover : work.next = base.length) :
    work.outcomes.length = base.length ∧ ∀ position < base.length, ∃ received now state,
      base[position]? = some state ∧ Begun base log position [.Ended position received] ∧
      ((∃ update next, received = .ok (.Result update) ∧ state.apply now update = .ok next ∧
          work.outcomes[position]? = some (.Done next)) ∨
        node.faultMode = .NonStrict ∧ (∃ text, work.outcomes[position]? = some (.Failed text)) ∧
          ∀ update next, received = .ok (.Result update) → state.apply now update ≠ .ok next) := by
  have hzipped : ∀ (position : Nat) state failure, work.states[position]? = some state →
      work.failures[position]? = some failure → work.outcomes[position]? =
        some (match failure with
          | some text => ElementOutcome.Failed text
          | none => ElementOutcome.Done state) := by
    intro position state failure hhere hthere
    have hpair : (work.states.zip work.failures)[position]? = some (state, failure) :=
      List.getElem?_zip_eq_some.mpr ⟨hhere, hthere⟩
    unfold Work.outcomes
    rw [List.getElem?_map, hpair]
    cases failure with
    | some text => rfl
    | none => rfl
  refine ⟨?_, ?_⟩
  · unfold Work.outcomes
    rw [List.length_map, List.length_zip, hsound.states, hsound.failures, Nat.min_self]
  · intro position hinside
    have hnoneLeft : position ∉ work.children.map Child.position := by
      rw [hidle]
      exact fun himpossible => by cases himpossible
    obtain ⟨received, now, hbegun, state, helement, hsettles⟩ :=
      hsound.settled position (by rw [hover]; exact hinside) hnoneLeft
    refine ⟨received, now, state, helement, hbegun, ?_⟩
    rcases hsettles with ⟨update, next, hresult, happlied, hhere, hunfailed⟩ |
      ⟨hlenient, ⟨text, hfailed⟩, hnever⟩
    · exact Or.inl ⟨update, next, hresult, happlied, hzipped position next none hhere hunfailed⟩
    · refine Or.inr ⟨hlenient, ⟨text, ?_⟩, hnever⟩
      have hbound : position < work.states.length := by
        rw [hsound.states]
        exact hinside
      exact hzipped position _ _ (List.getElem?_eq_getElem hbound) hfailed

end Work

end LlmGraph.Flow
