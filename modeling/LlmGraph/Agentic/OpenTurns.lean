/- digest: The open AI turns of a conversation: which of them an addition leaves open, which it opens
   and which it closes. -/

import LlmGraph.Agentic.Delivery
import LlmGraph.Agentic.Ledger

set_option autoImplicit false
set_option relaxedAutoImplicit false

namespace LlmGraph.Agentic

variable {C : Type} [Conversation C]

/-- The turns of a conversation have identities of their own. -/
def Distinct (c : C) : Prop := ((turns c).map Turn.id).Nodup

/-- What is documented of the library besides: a turn of an identity that is held is refused, and the
closure of an open turn is taken when it tells of a cancellation or of a failure. -/
structure Conversation.Closable (C : Type) [Conversation C] : Prop where
  unique : ∀ (c next : C) turn, Conversation.pushTurn c turn = .ok next →
    turn.id ∉ (turns c).map Turn.id
  closes : ∀ (c : C) (ai : AITurn) closure, turnOf c ai.id = some (.AITurn ai) →
    ai.isClosed = false → closure.id ∉ entryIds c →
      (closure.reason = .Cancelled ∨ ∃ detail, closure.reason = .Failed detail) →
        ∃ next, Conversation.pushEntry c ai.id (.TurnClosure closure) = .ok next

/-- An AI turn of the conversation that is not closed. -/
def StillOpen (c : C) (ai : AITurn) : Prop := .AITurn ai ∈ turns c ∧ ai.isClosed = false

/-- The same turn, with other entries perhaps. -/
def AITurn.Same (one other : AITurn) : Prop :=
  one.id = other.id ∧ one.agent = other.agent ∧ one.author = other.author

theorem AITurn.Same.refl (ai : AITurn) : ai.Same ai := ⟨rfl, rfl, rfl⟩

def TurnEntry.isClosure : TurnEntry → Bool
  | TurnClosure _ => true
  | _ => false

theorem AITurn.isClosed_add (ai : AITurn) (entry : TurnEntry) :
    (ai.add entry).isClosed = (ai.isClosed || entry.isClosure) := by
  unfold isClosed closure add
  rw [List.findSome?_append, Option.isSome_or]
  cases entry with
  | TurnClosure | ModelResponse | RuntimeToolResults | Incoming => rfl

/-- What an addition does to the open turns: it may open one, and close one. -/
structure Adds (before after : C) (opened : Option AiTurnRef) (closed : Option TurnId) : Prop where
  distinct : Distinct after
  entries : ∀ id ∈ entryIds before, id ∈ entryIds after
  keeps : ∀ ai, StillOpen before ai → closed = some ai.id ∨ ∃ next, StillOpen after next ∧ ai.Same next
  stems : ∀ next, StillOpen after next →
    (∃ ai, StillOpen before ai ∧ ai.Same next ∧ closed ≠ some ai.id) ∨
      ∃ target, opened = some target ∧ target.id = next.id ∧ target.agent = next.agent

theorem turnOf_iff {c : C} (hdistinct : Distinct c) {turn : Turn} :
    turnOf c turn.id = some turn ↔ turn ∈ turns c := by
  constructor
  · exact List.mem_of_find?_eq_some
  · intro hmem
    obtain ⟨front, back, hsplit⟩ := List.append_of_mem hmem
    unfold turnOf
    unfold Distinct at hdistinct
    rw [hsplit] at hdistinct ⊢
    rw [List.map_append, List.map_cons, List.nodup_append] at hdistinct
    rw [List.find?_append, List.find?_eq_none.mpr, Option.none_or, List.find?_cons_of_pos (by simp)]
    intro other hother hsame
    have hne := hdistinct.2.2 other.id (List.mem_map_of_mem hother) turn.id List.mem_cons_self
    exact hne (by simpa using hsame)

section Pushes

variable {c next : C}

/-- Two open turns of one identity are one. -/
theorem StillOpen.unique (hdistinct : Distinct c) {ai other : AITurn} (hai : StillOpen c ai)
    (hother : StillOpen c other) (hsame : ai.id = other.id) : ai = other := by
  have hfirst := (turnOf_iff hdistinct).mpr hai.1
  have hsecond := (turnOf_iff hdistinct).mpr hother.1
  have hid : (Turn.AITurn ai).id = (Turn.AITurn other).id := hsame
  rw [hid, hsecond] at hfirst
  cases hfirst
  rfl

theorem pushTurn_open (hlawful : Conversation.Lawful C) (hclosable : Conversation.Closable C)
    (hdistinct : Distinct c) {turn : Turn} (hpushed : Conversation.pushTurn c turn = .ok next) :
    Distinct next ∧ Gains c next turn.entryIds ∧
      ∀ ai, StillOpen next ai ↔ StillOpen c ai ∨ turn = .AITurn ai ∧ ai.isClosed = false := by
  have hturns := hlawful.pushTurn c next turn hpushed
  have hunheld := hclosable.unique c next turn hpushed
  refine ⟨?_, ⟨entryIds c, [], (List.append_nil _).symm, ?_⟩, fun ai => ?_⟩
  · unfold Distinct
    rw [hturns, List.map_append]
    refine List.nodup_append.mpr ⟨hdistinct, List.nodup_singleton _, fun id hid other hother hsame => ?_⟩
    rw [hsame, List.mem_singleton.mp hother] at hid
    exact hunheld hid
  · rw [entryIds, hturns, List.flatMap_append, List.append_nil]
    simp [entryIds]
  · unfold StillOpen
    rw [hturns, List.mem_append, List.mem_singleton, or_and_right]
    exact or_congr_right (and_congr_left fun _ => eq_comm)

/-- The open turns after an entry: the turn that it goes to, unless it is closed, and the others. -/
theorem pushEntry_open (hlawful : Conversation.Lawful C) (hdistinct : Distinct c) {id : TurnId}
    {entry : TurnEntry} (hpushed : Conversation.pushEntry c id entry = .ok next) :
    ∃ held, .AITurn held ∈ turns c ∧ held.id = id ∧ Distinct next ∧ Gains c next [entry.id] ∧
      ∀ ai, StillOpen next ai ↔
        StillOpen c ai ∧ ai.id ≠ id ∨ ai = held.add entry ∧ (held.add entry).isClosed = false := by
  obtain ⟨front, held, back, hbefore, -, hid, hafter⟩ := hlawful.pushEntry c next id entry hpushed
  have hheld : Turn.AITurn held ∈ turns c := by
    rw [hbefore]
    exact List.mem_append_right _ List.mem_cons_self
  have hothers : ∀ turn ∈ front ++ back, turn.id ≠ id := by
    intro turn hturn hsame
    unfold Distinct at hdistinct
    rw [hbefore, List.map_append, List.map_cons, List.nodup_append, List.nodup_cons] at hdistinct
    obtain ⟨-, ⟨hback, -⟩, hfront⟩ := hdistinct
    rcases List.mem_append.mp hturn with hfirst | hlater
    · exact hfront turn.id (List.mem_map_of_mem hfirst) held.id List.mem_cons_self
        (hsame.trans hid.symm)
    · refine hback ?_
      have hmem : turn.id ∈ back.map Turn.id := List.mem_map_of_mem hlater
      rw [hsame, ← hid] at hmem
      exact hmem
  refine ⟨held, hheld, hid, ?_, ⟨front.flatMap Turn.entryIds ++ held.entries.map TurnEntry.id,
    back.flatMap Turn.entryIds, ?_, ?_⟩, fun ai => ?_⟩
  · have hids : (turns next).map Turn.id = (turns c).map Turn.id := by
      rw [hbefore, hafter, List.map_append, List.map_append, List.map_cons, List.map_cons]
      rfl
    unfold Distinct
    rw [hids]
    exact hdistinct
  · simp [entryIds, hbefore, Turn.entryIds]
  · simp [entryIds, hafter, Turn.entryIds, AITurn.add]
  · have hai : (Turn.AITurn ai ∈ front ∨ Turn.AITurn ai ∈ back) → ai.id ≠ id := fun hmem =>
      hothers _ (List.mem_append.mpr hmem)
    unfold StillOpen
    rw [hbefore, hafter]
    simp only [List.mem_append, List.mem_cons, Turn.AITurn.injEq]
    constructor
    · rintro ⟨hfront | rfl | hback, hopen⟩
      · exact .inl ⟨⟨.inl hfront, hopen⟩, hai (.inl hfront)⟩
      · exact .inr ⟨rfl, hopen⟩
      · exact .inl ⟨⟨.inr (.inr hback), hopen⟩, hai (.inr hback)⟩
    · rintro (⟨⟨hfront | rfl | hback, hopen⟩, hne⟩ | ⟨rfl, hopen⟩)
      · exact ⟨.inl hfront, hopen⟩
      · exact absurd hid hne
      · exact ⟨.inr (.inr hback), hopen⟩
      · exact ⟨.inr (.inl rfl), hopen⟩

end Pushes

section Additions

variable (hlawful : Conversation.Lawful C) (hclosable : Conversation.Closable C) {c next : C}

include hlawful in
private theorem pushEntry_adds (hdistinct : Distinct c) {id : TurnId} {entry : TurnEntry}
    (hentry : entry.isClosure = false) (hpushed : Conversation.pushEntry c id entry = .ok next) :
    Adds c next none none := by
  obtain ⟨held, hheld, hid, hnext, hgains, hopen⟩ := pushEntry_open hlawful hdistinct hpushed
  have hclosed : (held.add entry).isClosed = held.isClosed := by
    rw [AITurn.isClosed_add, hentry, Bool.or_false]
  refine ⟨hnext, fun other hother => (hgains.mem_iff other).mpr (.inl hother), fun ai hai => ?_,
    fun ai hai => ?_⟩
  · by_cases hsame : ai.id = id
    · have hunique : held = ai := by
        have hfirst := (turnOf_iff hdistinct).mpr hheld
        have hsecond := (turnOf_iff hdistinct).mpr hai.1
        rw [show (Turn.AITurn ai).id = (Turn.AITurn held).id from hsame.trans hid.symm,
          hfirst] at hsecond
        cases hsecond
        rfl
      rw [hunique] at hopen hclosed
      refine .inr ⟨ai.add entry, (hopen _).mpr (.inr ⟨rfl, ?_⟩), rfl, rfl, rfl⟩
      rw [hclosed]
      exact hai.2
    · exact .inr ⟨ai, (hopen ai).mpr (.inl ⟨hai, hsame⟩), .refl ai⟩
  · rcases (hopen ai).mp hai with ⟨hbefore, -⟩ | ⟨rfl, hstill⟩
    · exact .inl ⟨ai, hbefore, .refl ai, fun hother => by cases hother⟩
    · exact .inl ⟨held, ⟨hheld, hclosed ▸ hstill⟩, ⟨rfl, rfl, rfl⟩, fun hother => by cases hother⟩

include hlawful hclosable in
theorem applyEntry_adds (hdistinct : Distinct c) {target : AiTurnRef} {entry : TurnEntry}
    (hentry : entry.isClosure = false) (happlied : applyEntry c target entry = .ok next) :
    Adds c next (if (turnOf c target.id).isSome then none else some target) none := by
  unfold applyEntry at happlied
  rcases hexisting : existing c target with refusal | there
  · rw [hexisting] at happlied
    cases happlied
  rw [hexisting] at happlied
  rcases existing_cases hexisting with ⟨rfl, ai, hturn, -⟩ | ⟨rfl, hturn⟩
  · rw [hturn]
    exact pushEntry_adds hlawful hdistinct hentry (ok_of_mapError happlied)
  · rw [hturn]
    rcases hmade : Conversation.pushTurnEntry c (.open target.id target.agent target.author) entry with
      refusal | created
    · simp [hmade, Except.mapError, bind, Except.bind] at happlied
    · simp only [hmade, Except.mapError, bind, Except.bind, Bool.false_eq_true, if_false] at happlied
      have hpushed : Conversation.pushTurn c (.AITurn created) = .ok next :=
        ok_of_mapError happlied
      obtain ⟨hnext, hgains, hopen⟩ := pushTurn_open hlawful hclosable hdistinct hpushed
      have hcreated := hlawful.pushTurnEntry c _ entry created hmade
      refine ⟨hnext, fun id hid => (hgains.mem_iff id).mpr (.inl hid), fun ai hai => ?_,
        fun ai hai => ?_⟩
      · exact .inr ⟨ai, (hopen ai).mpr (.inl hai), .refl ai⟩
      · rcases (hopen ai).mp hai with hbefore | ⟨hsame, -⟩
        · exact .inl ⟨ai, hbefore, .refl ai, fun hother => by cases hother⟩
        · cases hsame
          rw [hcreated]
          exact .inr ⟨target, rfl, rfl, rfl⟩

include hlawful in
/-- A closure closes the turn, and no other. -/
theorem applyClosure_adds (hdistinct : Distinct c) {target : AiTurnRef} {closure : TurnClosure}
    (happlied : applyClosure c target closure = .ok next) :
    Adds c next none (some target.id) ∧ Gains c next [closure.id] := by
  unfold applyClosure at happlied
  rcases hexisting : existing c target with refusal | there
  · rw [hexisting] at happlied
    cases happlied
  rw [hexisting] at happlied
  rcases existing_cases hexisting with ⟨rfl, -⟩ | ⟨rfl, -⟩
  · obtain ⟨held, hheld, hid, hnext, hgains, hopen⟩ :=
      pushEntry_open hlawful hdistinct (ok_of_mapError happlied)
    refine ⟨⟨hnext, fun id hmem => (hgains.mem_iff id).mpr (.inl hmem), fun ai hai => ?_,
      fun ai hai => ?_⟩, hgains⟩
    · by_cases hsame : ai.id = target.id
      · exact .inl (congrArg some hsame.symm)
      · exact .inr ⟨ai, (hopen ai).mpr (.inl ⟨hai, hsame⟩), .refl ai⟩
    · rcases (hopen ai).mp hai with ⟨hbefore, hne⟩ | ⟨-, himpossible⟩
      · exact .inl ⟨ai, hbefore, .refl ai, fun hother => hne (Option.some.inj hother).symm⟩
      · rw [AITurn.isClosed_add] at himpossible
        simp [TurnEntry.isClosure] at himpossible
  · cases happlied

include hclosable in
/-- The library takes the closure of an open turn. -/
theorem applyClosure_ok (hdistinct : Distinct c) {ai : AITurn} (hai : StillOpen c ai)
    (target : AiTurnRef) (closure : TurnClosure) (hid : target.id = ai.id)
    (hagent : target.agent = ai.agent) (hauthor : target.author = ai.author)
    (hfresh : closure.id ∉ entryIds c)
    (hreason : closure.reason = .Cancelled ∨ ∃ detail, closure.reason = .Failed detail) :
    ∃ next, applyClosure c target closure = .ok next := by
  have hturn : turnOf c ai.id = some (.AITurn ai) := (turnOf_iff hdistinct).mpr hai.1
  obtain ⟨next, hpushed⟩ := hclosable.closes c ai closure hturn hai.2 hfresh hreason
  refine ⟨next, ?_⟩
  have hthere : existing c target = .ok true := by
    unfold existing
    rw [hid, hturn]
    exact if_pos ⟨hagent.symm, hauthor.symm⟩
  unfold applyClosure
  rw [hthere, hid]
  show (Conversation.pushEntry c ai.id (.TurnClosure closure)).mapError _ = _
  rw [hpushed]
  rfl

end Additions

section Mirrors

variable {c next thread : C}

/-- The thread holds no entry and no open turn that the copy does not hold. -/
structure Mirrors (thread c : C) : Prop where
  distinct : Distinct thread
  entries : ∀ id ∈ entryIds thread, id ∈ entryIds c
  opens : ∀ ai, StillOpen thread ai → ∃ other, StillOpen c other ∧ ai.Same other

theorem Mirrors.refl (hdistinct : Distinct c) : Mirrors c c :=
  ⟨hdistinct, fun _ hid => hid, fun ai hai => ⟨ai, hai, .refl ai⟩⟩

/-- The copy holds more after an addition that closes no turn. -/
theorem Mirrors.of_adds (hmirrors : Mirrors thread c) {opened : Option AiTurnRef}
    (hadds : Adds c next opened none) : Mirrors thread next := by
  refine ⟨hmirrors.distinct, fun id hid => hadds.entries id (hmirrors.entries id hid),
    fun ai hai => ?_⟩
  obtain ⟨other, hother, hsame⟩ := hmirrors.opens ai hai
  rcases hadds.keeps other hother with hclosed | ⟨later, hlater, hkept⟩
  · cases hclosed
  · exact ⟨later, hlater, hsame.1.trans hkept.1, hsame.2.1.trans hkept.2.1,
      hsame.2.2.trans hkept.2.2⟩

/-- The closing of an open turn, in the copy and in the thread, where that holds the turn. -/
theorem Mirrors.closes (hlawful : Conversation.Lawful C) (hclosable : Conversation.Closable C)
    (hmirrors : Mirrors thread c) (hdistinct : Distinct c) {ai : AITurn} (hai : StillOpen c ai)
    {closure : TurnClosure} (hfresh : closure.id ∉ entryIds c)
    (hreason : closure.reason = .Cancelled ∨ ∃ detail, closure.reason = .Failed detail)
    (happlied : applyClosure c ⟨ai.id, ai.agent, ai.author⟩ closure = .ok next) :
    (∃ taken, applyClosure thread ⟨ai.id, ai.agent, ai.author⟩ closure = .ok taken ∧
      Mirrors taken next) ∨
    (∃ refusal, applyClosure thread ⟨ai.id, ai.agent, ai.author⟩ closure = .error refusal) ∧
      Mirrors thread next := by
  obtain ⟨hcopy, hgains⟩ := applyClosure_adds hlawful hdistinct happlied
  -- A turn that is open in the thread and is not the one that is closed stays open in the copy.
  have hstays : ∀ other, StillOpen thread other → other.id ≠ ai.id →
      ∃ later, StillOpen next later ∧ other.Same later := by
    intro other hother hne
    obtain ⟨held, hheld, hsame⟩ := hmirrors.opens other hother
    rcases hcopy.keeps held hheld with hclosed | ⟨later, hlater, hkept⟩
    · exact absurd (hsame.1.trans (Option.some.inj hclosed).symm) hne
    · exact ⟨later, hlater, hsame.1.trans hkept.1, hsame.2.1.trans hkept.2.1,
        hsame.2.2.trans hkept.2.2⟩
  cases htaken : applyClosure thread ⟨ai.id, ai.agent, ai.author⟩ closure with
  | ok taken =>
      obtain ⟨hthread, htold⟩ := applyClosure_adds hlawful hmirrors.distinct htaken
      refine .inl ⟨taken, rfl, hthread.distinct, fun id hid => ?_, fun later hlater => ?_⟩
      · refine (hgains.mem_iff id).mpr ?_
        exact ((htold.mem_iff id).mp hid).imp_left (hmirrors.entries id)
      · rcases hthread.stems later hlater with ⟨other, hother, hsame, hclosed⟩ | ⟨_, hnone, -⟩
        · obtain ⟨kept, hkept, hsame'⟩ := hstays other hother fun hid => hclosed (congrArg some hid.symm)
          exact ⟨kept, hkept, hsame.1.symm.trans hsame'.1, hsame.2.1.symm.trans hsame'.2.1,
            hsame.2.2.symm.trans hsame'.2.2⟩
        · cases hnone
  | error refusal =>
      refine .inr ⟨⟨refusal, rfl⟩, hmirrors.distinct,
        fun id hid => (hgains.mem_iff id).mpr (.inl (hmirrors.entries id hid)), fun other hother => ?_⟩
      refine hstays other hother fun hid => ?_
      obtain ⟨held, hheld, hsame⟩ := hmirrors.opens other hother
      obtain rfl : held = ai := hheld.unique hdistinct hai (hsame.1.symm.trans hid)
      obtain ⟨taken, hok⟩ := applyClosure_ok hclosable hmirrors.distinct hother
        ⟨held.id, held.agent, held.author⟩ closure hsame.1.symm hsame.2.1.symm hsame.2.2.symm
        (fun hheldId => hfresh (hmirrors.entries _ hheldId)) hreason
      rw [hok] at htaken
      cases htaken

end Mirrors

section Counted

variable {c next : C}

/-- The turn, when it is an open one of the agent. -/
def openOf (agent : AgentId) (turn : Turn) : Option AITurn :=
  turn.asAi.filter fun ai => ai.agent == agent && !ai.isClosed

theorem openOf_some {agent : AgentId} {turn : Turn} {ai : AITurn} :
    openOf agent turn = some ai ↔ turn = .AITurn ai ∧ ai.isClosed = false ∧ ai.agent = agent := by
  unfold openOf
  rw [Option.filter_eq_some_iff, Bool.and_eq_true, beq_iff_eq, Bool.not_eq_true',
    and_comm (a := ai.agent = agent)]
  refine and_congr_left fun _ => ?_
  cases turn with
  | InputTurn input =>
      constructor
      · intro hother
        cases hother
      · intro hother
        cases hother
  | AITurn held =>
      constructor
      · intro hsame
        cases hsame
        rfl
      · intro hsame
        cases hsame
        rfl

/-- The open turns of an agent. -/
def openTurns (c : C) (agent : AgentId) : List AITurn := (turns c).filterMap (openOf agent)

/-- The turn that `open_ai_turn` gives is open, and of the agent. -/
theorem openAiTurn_some {session : Session C} {agent : AgentId} {target : AiTurnRef}
    (hopen : session.openAiTurn agent = some target) :
    ∃ ai, StillOpen session.conversation ai ∧ ai.agent = agent ∧
      target = ⟨ai.id, ai.agent, ai.author⟩ := by
  unfold Session.openAiTurn at hopen
  obtain ⟨ai, hfound, rfl⟩ := Option.map_eq_some_iff.mp hopen
  have hheld := List.find?_some hfound
  rw [Bool.and_eq_true, beq_iff_eq, Bool.not_eq_true'] at hheld
  have hmem := List.mem_of_find?_eq_some hfound
  rw [List.mem_filterMap] at hmem
  obtain ⟨turn, hturn, hsome⟩ := hmem
  rcases turn with input | held
  · cases hsome
  · cases hsome
    exact ⟨ai, ⟨List.mem_reverse.mp hturn, hheld.2⟩, hheld.1, by rw [hheld.1]⟩

theorem openAiTurn_none {session : Session C} {agent : AgentId} :
    session.openAiTurn agent = none ↔
      ∀ ai, StillOpen session.conversation ai → ai.agent ≠ agent := by
  unfold Session.openAiTurn
  rw [Option.map_eq_none_iff, List.find?_eq_none]
  constructor
  · intro hnone ai hai hagent
    refine hnone ai (List.mem_filterMap.mpr ⟨_, List.mem_reverse.mpr hai.1, rfl⟩) ?_
    rw [hagent, hai.2]
    simp
  · intro hnone ai hmem hheld
    rw [Bool.and_eq_true, beq_iff_eq, Bool.not_eq_true'] at hheld
    obtain ⟨turn, hturn, hsome⟩ := List.mem_filterMap.mp hmem
    rcases turn with input | held
    · cases hsome
    · cases hsome
      exact hnone ai ⟨List.mem_reverse.mp hturn, hheld.2⟩ hheld.1

/-- A closing leaves one open turn of the agent less. -/
theorem applyClosure_fewer (hlawful : Conversation.Lawful C) (hdistinct : Distinct c) {ai : AITurn}
    (hai : StillOpen c ai) {closure : TurnClosure}
    (happlied : applyClosure c ⟨ai.id, ai.agent, ai.author⟩ closure = .ok next) :
    (openTurns next ai.agent).length < (openTurns c ai.agent).length := by
  have hpushed : Conversation.pushEntry c ai.id (.TurnClosure closure) = .ok next := by
    unfold applyClosure at happlied
    rcases hexisting : existing c ⟨ai.id, ai.agent, ai.author⟩ with refusal | there
    · rw [hexisting] at happlied
      cases happlied
    rw [hexisting] at happlied
    rcases existing_cases hexisting with ⟨rfl, -⟩ | ⟨rfl, -⟩
    · exact ok_of_mapError happlied
    · cases happlied
  obtain ⟨front, held, back, hbefore, -, hid, hafter⟩ := hlawful.pushEntry c next _ _ hpushed
  have hheld : held = ai := by
    have hmem : Turn.AITurn held ∈ turns c := by
      rw [hbefore]
      exact List.mem_append_right _ List.mem_cons_self
    have hfirst := (turnOf_iff hdistinct).mpr hmem
    have hsecond := (turnOf_iff hdistinct).mpr hai.1
    rw [show (Turn.AITurn held).id = (Turn.AITurn ai).id from hid, hsecond] at hfirst
    cases hfirst
    rfl
  have hopen : openOf ai.agent (.AITurn held) = some held :=
    openOf_some.mpr ⟨rfl, hheld ▸ hai.2, hheld ▸ rfl⟩
  have hclosed : openOf ai.agent (.AITurn (held.add (.TurnClosure closure))) = none := by
    refine Option.eq_none_iff_forall_ne_some.mpr fun other hother => ?_
    obtain ⟨hsame, hstill, -⟩ := openOf_some.mp hother
    cases hsame
    rw [AITurn.isClosed_add] at hstill
    simp [TurnEntry.isClosure] at hstill
  unfold openTurns
  rw [hbefore, hafter, List.filterMap_append, List.filterMap_append, List.filterMap_cons_some hopen,
    List.filterMap_cons_none hclosed, List.length_append, List.length_append, List.length_cons]
  omega

theorem openTurns_length (agent : AgentId) : (openTurns c agent).length ≤ (turns c).length :=
  List.length_filterMap_le _ _

end Counted

namespace Ledger

/-- The open turn of an identity takes an entry. -/
theorem extend_taken {id : TurnId} {entry : TurnEntry} {turns : List Turn} {ai : AITurn}
    (hturn : turns.find? (·.id == id) = some (.AITurn ai)) (hopen : ai.isClosed = false) :
    ∃ next, extend id entry turns = .ok next := by
  induction turns with
  | nil => cases hturn
  | cons first rest hind =>
      unfold extend
      by_cases hsame : first.id = id
      · rw [List.find?_cons, beq_iff_eq.mpr hsame] at hturn
        cases hturn
        rw [if_pos hsame]
        dsimp only
        rw [hopen]
        exact ⟨_, rfl⟩
      · rw [List.find?_cons, beq_false_of_ne hsame] at hturn
        obtain ⟨next, hnext⟩ := hind hturn
        rw [if_neg hsame, hnext]
        exact ⟨_, rfl⟩

theorem closable : Conversation.Closable Ledger where
  unique ledger next turn hpushed := by
    simp only [Conversation.pushTurn] at hpushed
    split at hpushed
    · cases hpushed
    · rename_i hnew
      rw [Bool.or_eq_true, not_or] at hnew
      intro hmem
      obtain ⟨held, hheld, hsame⟩ := List.mem_map.mp hmem
      exact hnew.1 (List.any_eq_true.mpr ⟨held, hheld, beq_iff_eq.mpr hsame⟩)
  closes ledger ai closure hturn hopen hfresh _ := by
    obtain ⟨next, hnext⟩ : ∃ next, extend ai.id (.TurnClosure closure) ledger.turns = .ok next :=
      extend_taken hturn hopen
    have hnew : ¬ ledger.heldIds.contains (TurnEntry.TurnClosure closure).id = true := fun hheld =>
      hfresh (List.contains_iff_mem.mp hheld)
    simp only [Conversation.pushEntry]
    rw [if_neg hnew, hnext]
    exact ⟨_, rfl⟩

end Ledger

end LlmGraph.Agentic
