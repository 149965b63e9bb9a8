/- digest: Instances after one another on one thread: whatever the ports answer, no item is stored
   twice, none is marked before the thread holds it, and a fault gives the rest back. -/

import LlmGraph.Agentic.Delivery
import LlmGraph.Agentic.Ledger

set_option autoImplicit false
set_option relaxedAutoImplicit false

namespace LlmGraph.Agentic

variable {C : Type} [Conversation C]

section Marks

/-- A host, and a boundary on its way, without what the inbox answered to the marks. -/
def Host.erase (host : Host C) : Host C := { host with marked := [], markCalls := 0 }

def Run.erase (run : Run C) : Run C :=
  { run with host := run.host.erase, report := ⟨run.report.stored, run.report.skipped, []⟩ }

omit [Conversation C]

variable {ports other : Ports MailItem} {run run' : Run C}

private theorem erase_eq (hsession : run.session = run'.session)
    (hhost : run.host.erase = run'.host.erase) (hdone : run.done = run'.done)
    (hskipped : run.report.skipped = run'.report.skipped)
    (hstored : run.report.stored = run'.report.stored) : run.erase = run'.erase := by
  unfold Run.erase
  rw [hsession, hhost, hdone, hskipped, hstored]

private theorem of_erase (halike : run.erase = run'.erase) : run.session = run'.session ∧
    run.host.erase = run'.host.erase ∧ run.done = run'.done ∧
      run.report.skipped = run'.report.skipped ∧ run.report.stored = run'.report.stored := by
  have hparts := Run.mk.inj halike
  exact ⟨hparts.1, hparts.2.1, hparts.2.2.1, (Boundary.mk.inj hparts.2.2.2).2.1,
    (Boundary.mk.inj hparts.2.2.2).1⟩

private theorem mark_alike (halike : run.erase = run'.erase) (item : InboxItem) :
    (run.mark ports item).erase = (run'.mark other item).erase := by
  obtain ⟨hsession, hhost, hdone, hskipped, hstored⟩ := of_erase halike
  have herased : ∀ (ports : Ports MailItem) (run : Run C), (run.mark ports item).erase =
      { run.erase with done := run.done ++ [item.id] } := by
    intro ports run
    unfold Run.mark
    dsimp only
    split
    · rfl
    · rfl
  rw [herased, herased, halike, hdone]

private theorem store_alike (halike : run.erase = run'.erase) (item : InboxItem) :
    (run.store item).erase = (run'.store item).erase := by
  obtain ⟨hsession, hhost, hdone, hskipped, hstored⟩ := of_erase halike
  exact erase_eq hsession hhost hdone hskipped (congrArg (· ++ [item.id]) hstored)

private theorem foldl_alike {f g : Run C → InboxItem → Run C}
    (heach : ∀ {run run' : Run C}, run.erase = run'.erase → ∀ item, (f run item).erase =
      (g run' item).erase) (items : List InboxItem) (halike : run.erase = run'.erase) :
    (items.foldl f run).erase = (items.foldl g run').erase := by
  induction items generalizing run run' with
  | nil => exact halike
  | cons item rest hstep => exact hstep (heach halike item)

private theorem skipHeld_alike (halike : run.erase = run'.erase) (held : List InboxItem) :
    (run.skipHeld ports held).erase = (run'.skipHeld other held).erase := by
  refine foldl_alike (fun hsame item => mark_alike ?_ item) held halike
  obtain ⟨hsession, hhost, hdone, hskipped, hstored⟩ := of_erase hsame
  exact erase_eq hsession hhost hdone (congrArg (· ++ [item.id]) hskipped) hstored

variable (hthread : other.thread = ports.thread)

include hthread

private theorem add_alike {session : Session C} {host host' : Host C}
    (halike : host.erase = host'.erase) (apply : C → Except SessionError C) :
    (session.add ports host apply).1 = (session.add other host' apply).1 ∧
    (session.add ports host apply).2.1 = (session.add other host' apply).2.1 ∧
    (session.add ports host apply).2.2.erase = (session.add other host' apply).2.2.erase := by
  have hparts := Host.mk.inj halike
  obtain ⟨hsame, -, hcalls, -, hmail⟩ := hparts
  unfold Session.add
  split
  · exact ⟨rfl, rfl, halike⟩
  · dsimp only
    rw [hthread, hcalls]
    split
    · refine ⟨rfl, rfl, ?_⟩
      unfold Host.erase
      dsimp only
      rw [hsame, hmail]
    · refine ⟨rfl, rfl, ?_⟩
      unfold Host.erase
      dsimp only
      rw [hsame, hmail]

variable [Conversation C]

private theorem storeInOpenTurn_alike (turn : AiTurnRef)
    (fresh : List (InboxItem × IncomingEntry)) (halike : run.erase = run'.erase) :
    (run.storeInOpenTurn ports turn fresh).1 = (run'.storeInOpenTurn other turn fresh).1 ∧
      (run.storeInOpenTurn ports turn fresh).2.erase =
        (run'.storeInOpenTurn other turn fresh).2.erase := by
  induction fresh generalizing run run' with
  | nil => exact ⟨rfl, halike⟩
  | cons one rest hstep =>
      obtain ⟨item, entry⟩ := one
      obtain ⟨hsession, hhost, hdone, hskipped, hstored⟩ := of_erase halike
      unfold Run.storeInOpenTurn
      rw [hsession]
      rcases Conversation.tryTurnEntry run'.session.conversation entry with error | made
      · exact ⟨rfl, halike⟩
      · dsimp only
        obtain ⟨houtcome, hafter, hhosts⟩ :=
          @add_alike C ports other hthread run'.session run.host run'.host hhost
            (applyEntry · turn made)
        unfold Session.addEntry
        rcases hone : run'.session.add ports run.host (applyEntry · turn made) with ⟨first, next, left⟩
        rcases htwo : run'.session.add other run'.host (applyEntry · turn made) with
          ⟨first', next', right⟩
        rw [hone, htwo] at houtcome hafter hhosts
        cases houtcome
        cases hafter
        have hadded : ({ run with session := next, host := left } : Run C).erase =
            ({ run' with session := next, host := right } : Run C).erase :=
          erase_eq rfl hhosts hdone hskipped hstored
        rcases first with fault | ⟨⟩
        · exact ⟨rfl, hadded⟩
        · exact hstep (mark_alike (store_alike hadded item) item)

private theorem storeInNewInputTurn_alike (turn : TurnId)
    (fresh : List (InboxItem × IncomingEntry)) (halike : run.erase = run'.erase) :
    (run.storeInNewInputTurn ports turn fresh).1 = (run'.storeInNewInputTurn other turn fresh).1 ∧
      (run.storeInNewInputTurn ports turn fresh).2.erase =
        (run'.storeInNewInputTurn other turn fresh).2.erase := by
  obtain ⟨hsession, hhost, hdone, hskipped, hstored⟩ := of_erase halike
  unfold Run.storeInNewInputTurn
  split
  · exact ⟨rfl, halike⟩
  · rw [hsession]
    rcases Conversation.newInputTurn run'.session.conversation turn (fresh.map Prod.snd) with
      error | made
    · exact ⟨rfl, halike⟩
    · dsimp only
      obtain ⟨houtcome, hafter, hhosts⟩ :=
        @add_alike C ports other hthread run'.session run.host run'.host hhost (applyInputTurn · made)
      unfold Session.addInputTurn
      rcases hone : run'.session.add ports run.host (applyInputTurn · made) with ⟨first, next, left⟩
      rcases htwo : run'.session.add other run'.host (applyInputTurn · made) with
          ⟨first', next', right⟩
      rw [hone, htwo] at houtcome hafter hhosts
      cases houtcome
      cases hafter
      have hadded : ({ run with session := next, host := left } : Run C).erase =
          ({ run' with session := next, host := right } : Run C).erase :=
        erase_eq rfl hhosts hdone hskipped hstored
      rcases first with fault | ⟨⟩
      · exact ⟨rfl, hadded⟩
      · exact ⟨rfl, foldl_alike (fun hsame item => mark_alike hsame item) _
          (foldl_alike (fun hsame item => store_alike hsame item) _ hadded)⟩

variable (hmail : other.mailEntry = ports.mailEntry)

include hmail

omit hthread in
private theorem sort_alike (session : Session C) (pending : List InboxItem) {host host' : Host C}
    (halike : host.erase = host'.erase) :
    (sort ports session host pending).1 = (sort other session host' pending).1 ∧
      (sort ports session host pending).2.erase = (sort other session host' pending).2.erase := by
  induction pending generalizing host host' with
  | nil => exact ⟨rfl, halike⟩
  | cons item rest hstep =>
      unfold sort
      split
      · obtain ⟨hsorted, hafter⟩ := hstep halike
        rcases hone : sort ports session host rest with ⟨first, left⟩
        rcases htwo : sort other session host' rest with ⟨first', right⟩
        rw [hone, htwo] at hsorted hafter
        cases hsorted
        rcases first with fault | ⟨held, fresh⟩
        · exact ⟨rfl, hafter⟩
        · exact ⟨rfl, hafter⟩
      · have hbuilt : (build ports host item).1 = (build other host' item).1 ∧
            (build ports host item).2.erase = (build other host' item).2.erase := by
          have hparts := Host.mk.inj halike
          obtain ⟨hsame, -, hcalls, -, hmails⟩ := hparts
          cases item with
          | Entry own => exact ⟨rfl, halike⟩
          | Mail own =>
              unfold build
              dsimp only
              rw [hmail, hmails]
              have hcounted : ({ host with mailCalls := host'.mailCalls + 1 } : Host C).erase =
                  ({ host' with mailCalls := host'.mailCalls + 1 } : Host C).erase := by
                unfold Host.erase
                dsimp only
                rw [hsame, hcalls]
              split
              · exact ⟨rfl, hcounted⟩
              · split
                · exact ⟨rfl, hcounted⟩
                · exact ⟨rfl, hcounted⟩
        obtain ⟨hmade, hnext⟩ := hbuilt
        rcases hone : build ports host item with ⟨entry, left⟩
        rcases htwo : build other host' item with ⟨entry', right⟩
        rw [hone, htwo] at hmade hnext
        cases hmade
        rcases entry with fault | entry
        · exact ⟨rfl, hnext⟩
        · dsimp only
          obtain ⟨hsorted, hafter⟩ := hstep hnext
          rcases hone : sort ports session left rest with ⟨first, last⟩
          rcases htwo : sort other session right rest with ⟨first', last'⟩
          rw [hone, htwo] at hsorted hafter
          cases hsorted
          rcases first with fault | ⟨held, fresh⟩
          · exact ⟨rfl, hafter⟩
          · exact ⟨rfl, hafter⟩

/-- What the inbox answers to the marks changes nothing but the marks. -/
theorem runBoundary_alike (session : Session C) (host : Host C) (agent : AgentId) (queue : Queue)
    (newTurn : TurnId) :
    (runBoundary ports ⟨session, host, [], .empty⟩ agent queue newTurn).1 =
        (runBoundary other ⟨session, host, [], .empty⟩ agent queue newTurn).1 ∧
      (runBoundary ports ⟨session, host, [], .empty⟩ agent queue newTurn).2.erase =
        (runBoundary other ⟨session, host, [], .empty⟩ agent queue newTurn).2.erase := by
  obtain ⟨hsorted, hafter⟩ := sort_alike hmail session queue (rfl : host.erase = host.erase)
  unfold runBoundary
  rcases hone : sort ports session host queue with ⟨first, left⟩
  rcases htwo : sort other session host queue with ⟨first', right⟩
  rw [hone, htwo] at hsorted hafter
  cases hsorted
  rcases first with fault | ⟨held, fresh⟩
  · exact ⟨rfl, erase_eq rfl hafter rfl rfl rfl⟩
  · have hbegun : (⟨session, left, [], .empty⟩ : Run C).erase =
        (⟨session, right, [], .empty⟩ : Run C).erase := erase_eq rfl hafter rfl rfl rfl
    have hskipped := @skipHeld_alike C ports other _ _ hbegun held
    dsimp only
    rw [(of_erase hskipped).1]
    split
    · exact storeInOpenTurn_alike hthread _ fresh hskipped
    · exact storeInNewInputTurn_alike hthread newTurn fresh hskipped

end Marks

/-- The instances of a node on one thread, one after the other: the host, the session in use, its
queue, and every item that a boundary has reported as stored. -/
structure Site (C : Type) where
  host : Host C
  session : Option (Session C)
  queue : Queue
  stored : List EntryId

/-- What an instance does; a new one starts with a session that reads the thread, and a queue of its
own. -/
inductive Op where
  | Start
  | End
  | Push (item : InboxItem)
  | Read (answers : List (Except PortError InboxBatch))
  | Boundary (agent : AgentId) (newTurn : TurnId)
  | AddInputTurn (turn : InputTurn)
  | AddEntry (turn : AiTurnRef) (entry : TurnEntry)
  | CloseTurn (turn : AiTurnRef) (closure : TurnClosure)
  | OpenResponse (entry : EntryId)
  | CompleteResponse (turn : AiTurnRef) (response : ModelResponse)
  | DiscardResponse (entry : EntryId)
  | OpenResult (entry : EntryId)
  | CompleteResult (turn : AiTurnRef) (results : RuntimeToolResults)
  | DiscardResult (entry : EntryId)
  | DiscardAll

def reportOf : Except BoundaryError Boundary → Boundary
  | .ok report => report
  | .error error => error.done

namespace Site

/-- A thread that no instance has worked on. -/
def opening (thread : C) : Site C := ⟨⟨thread, [], 0, 0, 0⟩, none, [], []⟩

/-- After an error of the thread access, the session is not used again. -/
def after (site : Site C) (session : Session C) (host : Host C) :
    Except SessionError Unit → Site C
  | .error (.Port _) => { site with host, session := none }
  | _ => { site with host, session := some session }

/-- An operation on the session in use. -/
def step (ports : Ports MailItem) (site : Site C) (session : Session C) : Op → Site C
  | .Start => { site with session := some (.start site.host.thread), queue := [] }
  | .End => { site with session := none }
  | .Push item => { site with queue := (site.queue.push item).2 }
  | .Read answers => { site with queue := (site.queue.read none 0 answers).2 }
  | .Boundary agent newTurn =>
      let (outcome, next, host, queue) :=
        storeAtBoundary ports session site.host agent site.queue newTurn
      { site.after next host ((outcome.map fun _ => ()).mapError (·.fault)) with
        queue, stored := site.stored ++ (reportOf outcome).stored }
  | .AddInputTurn turn =>
      let (outcome, next, host) := session.addInputTurn ports site.host turn
      site.after next host outcome
  | .AddEntry turn entry =>
      let (outcome, next, host) := session.addEntry ports site.host turn entry
      site.after next host outcome
  | .CloseTurn turn closure =>
      let (outcome, next, host) := session.closeTurn ports site.host turn closure
      site.after next host outcome
  | .OpenResponse entry => { site with session := some (session.openResponse entry) }
  | .CompleteResponse turn response =>
      let (outcome, next, host) := session.completeResponse ports site.host turn response
      site.after next host outcome
  | .DiscardResponse entry => { site with session := some (session.discardResponse entry) }
  | .OpenResult entry => { site with session := some (session.openResult entry) }
  | .CompleteResult turn results =>
      let (outcome, next, host) := session.completeResult ports site.host turn results
      site.after next host outcome
  | .DiscardResult entry => { site with session := some (session.discardResult entry) }
  | .DiscardAll => { site with session := some session.discardAll }

/-- An operation: with no session in use, all that an instance can do is to start. -/
def act (ports : Ports MailItem) (site : Site C) (op : Op) : Site C :=
  match site.session, op with
  | some session, op => site.step ports session op
  | none, .Start => site.step ports (.start site.host.thread) .Start
  | none, _ => site

def run (ports : Ports MailItem) (site : Site C) (ops : List Op) : Site C :=
  ops.foldl (act ports) site

end Site

/-- What a boundary leaves, whether it ends well or in a fault. -/
structure Delivered (ports : Ports MailItem) (session : Session C) (host : Host C) (queue : Queue)
    (outcome : Except BoundaryError Boundary) (after : Host C) (left : Queue) : Prop where
  gains : Gains host.thread after.thread (reportOf outcome).stored
  ordered : ∃ rest, (reportOf outcome).stored ++ rest =
    (queue.filter (!session.holds ·.id)).map InboxItem.id
  marked : after.marked = host.marked ++
    readOf ports host.markCalls ((reportOf outcome).skipped ++ (reportOf outcome).stored)
  unmarked : (reportOf outcome).unmarked =
    unreadOf ports host.markCalls ((reportOf outcome).skipped ++ (reportOf outcome).stored)
  skipped : ∀ id ∈ (reportOf outcome).skipped, session.holds id = true
  well : ∀ report, outcome = .ok report → left = [] ∧
    report.skipped = (queue.filter (session.holds ·.id)).map InboxItem.id ∧
    report.stored = (queue.filter (!session.holds ·.id)).map InboxItem.id
  fault : ∀ error, outcome = .error error → left = queue.filter fun item =>
    !(error.done.skipped ++ error.done.stored).contains item.id

theorem storeAtBoundary_delivered {ports : Ports MailItem} (hlawful : Conversation.Lawful C)
    {session : Session C} {host : Host C} (hsync : session.conversation = host.thread)
    (agent : AgentId) (queue : Queue) (newTurn : TurnId) :
    Delivered ports session host queue
      (storeAtBoundary ports session host agent queue newTurn).1
      (storeAtBoundary ports session host agent queue newTurn).2.2.1
      (storeAtBoundary ports session host agent queue newTurn).2.2.2 ∧
    ((storeAtBoundary ports session host agent queue newTurn).2.1.conversation =
        (storeAtBoundary ports session host agent queue newTurn).2.2.1.thread ∨
      ∃ error done, (storeAtBoundary ports session host agent queue newTurn).1 =
        .error ⟨.Port error, done⟩) := by
  obtain ⟨⟨skips, first, rest, hsplit, hdid, hgains⟩, hkept⟩ :=
    @runBoundary_bounded C _ ports hlawful session host hsync agent queue newTurn
  unfold storeAtBoundary
  rcases hran : runBoundary ports ⟨session, host, [], .empty⟩ agent queue newTurn with
    ⟨fault | ⟨⟩, run⟩
  · rw [hran] at hsplit hdid hgains hkept
    have hskipped : run.report.skipped = skips.map InboxItem.id := hdid.skipped
    have hstored : run.report.stored = first.map InboxItem.id := hdid.stored
    have hboth : run.report.skipped ++ run.report.stored =
        (skips ++ first).map InboxItem.id := by
      rw [hskipped, hstored, List.map_append]
    have hdone : run.done = (skips ++ first).map InboxItem.id := hdid.done
    refine ⟨⟨?_, ?_, ?_, ?_, ?_, (fun report hended => by cases hended), fun error hsame => ?_⟩, ?_⟩
    · exact hstored ▸ hgains
    · rcases hsplit with ⟨-, hall, -⟩ | ⟨-, rfl, -⟩
      · exact ⟨rest.map InboxItem.id, by
          rw [← hall, List.map_append]
          exact congrArg (· ++ _) hstored⟩
      · exact ⟨_, congrArg (· ++ _) hstored⟩
    · exact hdid.marked.trans (congrArg (host.marked ++ readOf ports host.markCalls ·) hboth.symm)
    · exact hdid.unmarked.trans (congrArg (unreadOf ports host.markCalls ·) hboth.symm)
    · intro id hmember
      have hlisted : id ∈ skips.map InboxItem.id := hskipped ▸ hmember
      obtain ⟨item, hamong, rfl⟩ := List.mem_map.mp hlisted
      rcases hsplit with ⟨rfl, -, -⟩ | ⟨rfl, -, -⟩
      · exact (List.mem_filter.mp hamong).2
      · cases hamong
    · cases hsame
      dsimp only
      rw [hdone, ← hboth]
      exact List.append_nil _
    · rcases hkept with hinsync | ⟨error, hlost⟩
      · exact Or.inl hinsync
      · cases hlost
        exact Or.inr ⟨error, run.report, rfl⟩
  · rw [hran] at hsplit hdid hgains hkept
    have hskipped : run.report.skipped = skips.map InboxItem.id := hdid.skipped
    have hstored : run.report.stored = first.map InboxItem.id := hdid.stored
    have hboth : run.report.skipped ++ run.report.stored =
        (skips ++ first).map InboxItem.id := by
      rw [hskipped, hstored, List.map_append]
    obtain ⟨hheld, hall, hover⟩ : skips = queue.filter (session.holds ·.id) ∧
        first ++ rest = queue.filter (!session.holds ·.id) ∧ rest = [] := by
      rcases hsplit with ⟨hheld, hall, hover⟩ | ⟨-, -, hfaulted⟩
      · exact ⟨hheld, hall, hover rfl⟩
      · exact absurd rfl hfaulted
    rw [hover, List.append_nil] at hall
    refine ⟨⟨hstored ▸ hgains, ⟨[], ?_⟩, ?_, ?_, ?_, fun report hsame => ?_,
      fun error himpossible => by cases himpossible⟩, ?_⟩
    · rw [List.append_nil, ← hall]
      exact hstored
    · exact hdid.marked.trans (congrArg (host.marked ++ readOf ports host.markCalls ·) hboth.symm)
    · exact hdid.unmarked.trans (congrArg (unreadOf ports host.markCalls ·) hboth.symm)
    · intro id hmember
      have hlisted : id ∈ skips.map InboxItem.id := hskipped ▸ hmember
      obtain ⟨item, hamong, rfl⟩ := List.mem_map.mp hlisted
      rw [hheld] at hamong
      exact (List.mem_filter.mp hamong).2
    · cases hsame
      exact ⟨rfl, by rw [hskipped, hheld], by rw [hstored, hall]⟩
    · rcases hkept with hinsync | ⟨error, hlost⟩
      · exact Or.inl hinsync
      · cases hlost

section Queues

private theorem nodup_push {queue : Queue} (hdistinct : (queue.map InboxItem.id).Nodup)
    (item : InboxItem) : ((queue.push item).2.map InboxItem.id).Nodup := by
  unfold Queue.push
  split
  · exact hdistinct
  · rename_i hnew
    rw [List.map_append]
    refine List.nodup_append.mpr ⟨hdistinct, List.nodup_singleton _, ?_⟩
    intro id hmember other hsingle
    cases List.mem_singleton.mp hsingle
    rintro rfl
    obtain ⟨held, hamong, hsame⟩ := List.mem_map.mp hmember
    exact hnew (List.any_eq_true.mpr ⟨held, hamong, by simp [hsame]⟩)

theorem push_extends (queue : Queue) (item : InboxItem) : queue <+: (queue.push item).2 := by
  unfold Queue.push
  split
  · exact List.prefix_refl _
  · exact List.prefix_append _ _

/-- What is pushed later stands behind. -/
theorem pushAll_extends (items : List InboxItem) (queue : Queue) : queue <+: queue.pushAll items := by
  induction items generalizing queue with
  | nil => exact List.prefix_refl _
  | cons item rest hstep => exact (push_extends queue item).trans (hstep _)

private theorem nodup_pushAll (items : List InboxItem) {queue : Queue}
    (hdistinct : (queue.map InboxItem.id).Nodup) :
    ((queue.pushAll items).map InboxItem.id).Nodup := by
  induction items generalizing queue with
  | nil => exact hdistinct
  | cons item rest hstep => exact hstep (nodup_push hdistinct item)

private theorem nodup_read (answers : List (Except PortError InboxBatch)) (cursor : Option Cursor)
    (added : Nat) {queue : Queue} (hdistinct : (queue.map InboxItem.id).Nodup) :
    ((queue.read cursor added answers).2.map InboxItem.id).Nodup := by
  induction answers generalizing queue cursor added with
  | nil => exact hdistinct
  | cons answer rest hstep =>
      unfold Queue.read
      rcases answer with error | page
      · exact hdistinct
      · have hfilled := nodup_pushAll page.items hdistinct
        dsimp only
        split
        · exact hfilled
        · split
          · exact hfilled
          · exact hstep _ _ hfilled

end Queues

section Growth

variable (hlawful : Conversation.Lawful C) {before after : C}

include hlawful

/-- An addition that the rules take loses no entry. -/
private theorem applyInputTurn_grows {turn : InputTurn}
    (happlied : applyInputTurn before turn = .ok after) :
    ∀ id ∈ entryIds before, id ∈ entryIds after := by
  unfold applyInputTurn at happlied
  rcases hpushed : Conversation.pushTurn before (.InputTurn turn) with refusal | next
  · simp [hpushed, Except.mapError] at happlied
  · simp [hpushed, Except.mapError] at happlied
    subst happlied
    intro id hmember
    rw [entryIds, hlawful.pushTurn _ _ _ hpushed, List.flatMap_append]
    exact List.mem_append_left _ hmember

private theorem pushEntry_grows {id : TurnId} {entry : TurnEntry}
    (hpushed : Conversation.pushEntry before id entry = .ok after) :
    ∀ id ∈ entryIds before, id ∈ entryIds after := by
  obtain ⟨front, turn, back, hold, -, -, hnew⟩ := hlawful.pushEntry _ _ _ _ hpushed
  intro id hmember
  rw [entryIds, hold] at hmember
  rw [entryIds, hnew]
  simp only [List.flatMap_append, List.flatMap_cons, List.mem_append] at hmember ⊢
  rcases hmember with hthere | hhere | hthere
  · exact Or.inl hthere
  · refine Or.inr (Or.inl ?_)
    simp only [Turn.entryIds, AITurn.add, List.map_append, List.mem_append] at hhere ⊢
    exact Or.inl hhere
  · exact Or.inr (Or.inr hthere)

private theorem applyEntry_grows {turn : AiTurnRef} {entry : TurnEntry}
    (happlied : applyEntry before turn entry = .ok after) :
    ∀ id ∈ entryIds before, id ∈ entryIds after := by
  unfold applyEntry at happlied
  rcases hchecked : existing before turn with refusal | present
  · simp [hchecked, bind, Except.bind] at happlied
  · cases present with
    | true =>
        rcases hpushed : Conversation.pushEntry before turn.id entry with refusal | next
        · simp [hchecked, hpushed, bind, Except.bind, Except.mapError] at happlied
        · simp [hchecked, hpushed, bind, Except.bind, Except.mapError] at happlied
          subst happlied
          exact pushEntry_grows hlawful hpushed
    | false =>
        rcases hmade : Conversation.pushTurnEntry before (.open turn.id turn.agent turn.author) entry
          with refusal | created
        · simp [hchecked, hmade, bind, Except.bind, Except.mapError] at happlied
        · rcases hpushed : Conversation.pushTurn before (.AITurn created) with refusal | next
          · simp [hchecked, hmade, hpushed, bind, Except.bind, Except.mapError] at happlied
          · simp [hchecked, hmade, hpushed, bind, Except.bind, Except.mapError] at happlied
            subst happlied
            intro id hmember
            rw [entryIds, hlawful.pushTurn _ _ _ hpushed, List.flatMap_append]
            exact List.mem_append_left _ hmember

private theorem applyClosure_grows {turn : AiTurnRef} {closure : TurnClosure}
    (happlied : applyClosure before turn closure = .ok after) :
    ∀ id ∈ entryIds before, id ∈ entryIds after := by
  unfold applyClosure at happlied
  rcases hchecked : existing before turn with refusal | present
  · simp [hchecked, bind, Except.bind] at happlied
  · cases present with
    | true =>
        rcases hpushed : Conversation.pushEntry before turn.id (.TurnClosure closure) with
          refusal | next
        · simp [hchecked, hpushed, bind, Except.bind, Except.mapError] at happlied
        · simp [hchecked, hpushed, bind, Except.bind, Except.mapError] at happlied
          subst happlied
          exact pushEntry_grows hlawful hpushed
    | false => simp [hchecked, bind, Except.bind] at happlied

end Growth

omit [Conversation C] in
theorem mem_of_readOf {ports : Ports MailItem} {calls : Nat} {ids : List EntryId} {id : EntryId}
    (hmember : id ∈ readOf ports calls ids) : id ∈ ids := by
  obtain ⟨⟨asked, call⟩, hamong, rfl⟩ := List.mem_map.mp hmember
  exact List.fst_mem_of_mem_zipIdx (List.mem_filter.mp hamong).1

/-- What holds of the instances on a thread: the copy in use is the thread, the items stored and
those marked are in the thread, none is stored twice, and no two queued items share an identity. -/
structure Site.Kept (site : Site C) : Prop where
  sync : ∀ session, site.session = some session → session.conversation = site.host.thread
  stored : site.stored.Nodup ∧ ∀ id ∈ site.stored, id ∈ entryIds site.host.thread
  marked : ∀ id ∈ site.host.marked, id ∈ entryIds site.host.thread
  queue : (site.queue.map InboxItem.id).Nodup

namespace Site.Kept

variable {ports : Ports MailItem} {site : Site C}

theorem opening (thread : C) : (Site.opening thread).Kept where
  sync _ himpossible := by cases himpossible
  stored := ⟨List.nodup_nil, fun _ hmember => by cases hmember⟩
  marked _ hmember := by cases hmember
  queue := List.nodup_nil

/-- Another session with the same copy, after the same outcome. -/
private theorem resume {session next : Session C} {host : Host C}
    {outcome : Except SessionError Unit} (hsame : next.conversation = session.conversation)
    (hkept : (site.after session host outcome).Kept) : (site.after next host outcome).Kept := by
  rcases outcome with (_ | _ | _ | _) | ⟨⟩
  case error.Port => exact hkept
  all_goals
    refine ⟨fun other hused => ?_, hkept.stored, hkept.marked, hkept.queue⟩
    cases hused
    rw [hsame]
    exact hkept.sync session rfl

/-- An addition that grows the thread keeps what holds. -/
private theorem add (hkept : site.Kept) {session : Session C} (hused : site.session = some session)
    (apply : C → Except SessionError C)
    (hgrows : ∀ before after, apply before = .ok after →
      ∀ id ∈ entryIds before, id ∈ entryIds after) :
    (site.after (session.add ports site.host apply).2.1 (session.add ports site.host apply).2.2
      (session.add ports site.host apply).1).Kept := by
  have hinsync := hkept.sync session hused
  rcases @Session.add_cases C _ ports _ _ apply hinsync with
    ⟨refusal, hrefused, hadded⟩ | ⟨thread, happlied, ⟨error, hadded⟩ | hadded⟩
  · rw [hadded]
    rcases refusal with _ | _ | _ | _
    all_goals
      refine ⟨fun other hsame => ?_, hkept.stored, hkept.marked, hkept.queue⟩
      cases hsame
    all_goals exact hinsync
  · rw [hadded]
    refine ⟨fun other hsame => ?_, hkept.stored, hkept.marked, hkept.queue⟩
    cases hsame
  · rw [hadded]
    have hlarger := hgrows _ _ happlied
    refine ⟨fun other hsame => ?_, ⟨hkept.stored.1, fun id hmember => ?_⟩, fun id hmember => ?_,
      hkept.queue⟩
    · cases hsame
      rfl
    · exact hlarger id (hkept.stored.2 id hmember)
    · exact hlarger id (hkept.marked id hmember)

/-- A boundary stores what the thread does not hold yet, and marks what it then holds. -/
private theorem boundary (hlawful : Conversation.Lawful C) (hkept : site.Kept) {session : Session C}
    (hused : site.session = some session) (agent : AgentId) (newTurn : TurnId) :
    (site.step ports session (.Boundary agent newTurn)).Kept := by
  have hinsync := hkept.sync session hused
  obtain ⟨hdelivered, hsynced⟩ :=
    @storeAtBoundary_delivered C _ ports hlawful session site.host hinsync agent site.queue newTurn
  rcases hbounded : storeAtBoundary ports session site.host agent site.queue newTurn with
    ⟨outcome, next, host, left⟩
  rw [hbounded] at hdelivered hsynced
  dsimp only at hdelivered hsynced
  have hstepped : site.step ports session (.Boundary agent newTurn) =
      { site.after next host ((outcome.map fun _ => ()).mapError (·.fault)) with
        queue := left, stored := site.stored ++ (reportOf outcome).stored } := by
    simp only [Site.step, hbounded]
  rw [hstepped]
  have hheld : ∀ id, session.holds id = true ↔ id ∈ entryIds site.host.thread := by
    intro id
    unfold Session.holds
    rw [holds_iff, hinsync]
  obtain ⟨rest, hordered⟩ := hdelivered.ordered
  have hfresh : ∀ id ∈ (reportOf outcome).stored, id ∉ entryIds site.host.thread := by
    intro id hmember hpresent
    have hlisted : id ∈ (site.queue.filter (!session.holds ·.id)).map InboxItem.id := by
      rw [← hordered]
      exact List.mem_append_left _ hmember
    obtain ⟨item, hamong, rfl⟩ := List.mem_map.mp hlisted
    have habsent := (List.mem_filter.mp hamong).2
    rw [(hheld item.id).mpr hpresent] at habsent
    cases habsent
  have hdistinct : (reportOf outcome).stored.Nodup := by
    have hall : ((site.queue.filter (!session.holds ·.id)).map InboxItem.id).Nodup :=
      hkept.queue.sublist (List.filter_sublist.map _)
    rw [← hordered] at hall
    exact (List.nodup_append.mp hall).1
  have hparts : ∀ site' : Site C, site'.host = host →
      site'.stored = site.stored ++ (reportOf outcome).stored → site'.queue = left →
      (∀ other, site'.session = some other → other.conversation = host.thread) →
      site'.Kept := by
    intro site' hhosts hstored hqueue hsync
    refine ⟨hhosts ▸ hsync, ⟨?_, fun id hmember => ?_⟩, fun id hmember => ?_, ?_⟩
    · rw [hstored]
      refine List.nodup_append.mpr ⟨hkept.stored.1, hdistinct, fun id hmember other hlater => ?_⟩
      rintro rfl
      exact hfresh id hlater (hkept.stored.2 id hmember)
    · rw [hhosts, hdelivered.gains.mem_iff]
      rw [hstored] at hmember
      exact (List.mem_append.mp hmember).imp_left (hkept.stored.2 id)
    · rw [hhosts, hdelivered.gains.mem_iff]
      rw [hhosts, hdelivered.marked] at hmember
      rcases List.mem_append.mp hmember with hold | hnew
      · exact Or.inl (hkept.marked id hold)
      · rcases List.mem_append.mp (mem_of_readOf hnew) with hskipped | hstored
        · exact Or.inl ((hheld id).mp (hdelivered.skipped id hskipped))
        · exact Or.inr hstored
    · rw [hqueue]
      rcases outcome with error | report
      · rw [hdelivered.fault error rfl]
        exact hkept.queue.sublist (List.filter_sublist.map _)
      · rw [(hdelivered.well report rfl).1]
        exact List.nodup_nil
  refine hparts _ ?_ rfl rfl ?_
  · rcases outcome with ⟨(_ | _ | _ | _), done⟩ | report
    all_goals rfl
  · intro other hsame
    rcases hsynced with hinsync | ⟨error, done, rfl⟩
    · rcases outcome with ⟨(_ | _ | _ | _), done⟩ | report
      all_goals cases hsame
      all_goals exact hinsync
    · cases hsame

/-- One operation keeps what holds. -/
theorem step (hlawful : Conversation.Lawful C) (hkept : site.Kept) {session : Session C}
    (hused : site.session = some session) (op : Op) : (site.step ports session op).Kept := by
  have hinsync := hkept.sync session hused
  have hrenewed : ∀ next : Session C, next.conversation = session.conversation →
      Site.Kept { site with session := some next } := by
    intro next hsame
    refine ⟨fun other hhere => ?_, hkept.stored, hkept.marked, hkept.queue⟩
    cases hhere
    exact hsame.trans hinsync
  cases op with
  | Start =>
      refine ⟨fun other hhere => ?_, hkept.stored, hkept.marked, List.nodup_nil⟩
      cases hhere
      rfl
  | End =>
      exact ⟨(fun other hhere => by cases hhere), hkept.stored, hkept.marked, hkept.queue⟩
  | Push item => exact ⟨hkept.sync, hkept.stored, hkept.marked, nodup_push hkept.queue item⟩
  | Read answers =>
      exact ⟨hkept.sync, hkept.stored, hkept.marked, nodup_read answers none 0 hkept.queue⟩
  | Boundary agent newTurn => exact boundary hlawful hkept hused agent newTurn
  | AddInputTurn turn =>
      exact add hkept hused (applyInputTurn · turn) fun _ _ => applyInputTurn_grows hlawful
  | AddEntry turn entry =>
      exact add hkept hused (applyEntry · turn entry) fun _ _ => applyEntry_grows hlawful
  | CloseTurn turn closure =>
      exact add hkept hused (applyClosure · turn closure) fun _ _ => applyClosure_grows hlawful
  | OpenResponse entry => exact hrenewed _ rfl
  | DiscardResponse entry => exact hrenewed _ rfl
  | OpenResult entry => exact hrenewed _ rfl
  | DiscardResult entry => exact hrenewed _ rfl
  | DiscardAll => exact hrenewed _ rfl
  | CompleteResponse turn response =>
      have hadded := @add C _ ports site hkept session hused (applyResponse · turn response)
        fun _ _ => applyEntry_grows hlawful
      simp only [Site.step, Session.completeResponse]
      rcases htaken : session.add ports site.host (applyResponse · turn response) with
        ⟨(_ | _ | _ | _) | ⟨⟩, next, host⟩
      all_goals
        rw [htaken] at hadded
        have hsame : (next.discardResponse response.id).conversation = next.conversation := rfl
      case error.Port => exact hadded
      all_goals exact resume hsame hadded
  | CompleteResult turn results =>
      have hadded := @add C _ ports site hkept session hused (applyResults · turn results)
        fun _ _ => applyEntry_grows hlawful
      simp only [Site.step, Session.completeResult]
      rcases htaken : session.add ports site.host (applyResults · turn results) with
        ⟨(_ | _ | _ | _) | ⟨⟩, next, host⟩
      all_goals
        rw [htaken] at hadded
        have hsame : (next.discardResult results.id).conversation = next.conversation := rfl
      case error.Port => exact hadded
      all_goals exact resume hsame hadded

theorem act (hlawful : Conversation.Lawful C) (hkept : site.Kept) (op : Op) :
    (site.act ports op).Kept := by
  rcases hused : site.session with _ | session
  · cases op with
    | Start =>
        have hacted : site.act ports .Start = site.step ports (.start site.host.thread) .Start := by
          simp only [Site.act, hused]
        rw [hacted]
        refine ⟨fun other hhere => ?_, hkept.stored, hkept.marked, List.nodup_nil⟩
        cases hhere
        rfl
    | _ =>
        simp only [Site.act, hused]
        exact hkept
  · have hacted : site.act ports op = site.step ports session op := by
      simp only [Site.act, hused]
    rw [hacted]
    exact hkept.step hlawful hused op

theorem run (hlawful : Conversation.Lawful C) (hkept : site.Kept) (ops : List Op) :
    (site.run ports ops).Kept := by
  induction ops generalizing site with
  | nil => exact hkept
  | cons op rest hstep => exact hstep (hkept.act hlawful op)

end Site.Kept

/-- Two boundaries that differ in what the inbox answers to the marks end alike, and leave the same
session, thread and queue. -/
private theorem storeAtBoundary_alike {ports other : Ports MailItem}
    (hthread : other.thread = ports.thread) (hmail : other.mailEntry = ports.mailEntry)
    (session : Session C) (host : Host C) (agent : AgentId) (queue : Queue) (newTurn : TurnId)
    {outcome outcome' : Except BoundaryError Boundary} {next next' : Session C}
    {after after' : Host C} {left left' : Queue}
    (hone : storeAtBoundary ports session host agent queue newTurn = (outcome, next, after, left))
    (htwo : storeAtBoundary other session host agent queue newTurn =
      (outcome', next', after', left')) :
    (outcome'.map fun _ => ()).mapError (·.fault) = (outcome.map fun _ => ()).mapError (·.fault) ∧
      (reportOf outcome').stored = (reportOf outcome).stored ∧
        (reportOf outcome').skipped = (reportOf outcome).skipped ∧
          next' = next ∧ after'.thread = after.thread ∧ left' = left := by
  obtain ⟨hended, herased⟩ := runBoundary_alike hthread hmail session host agent queue newTurn
  obtain ⟨hsessions, hhosts, hdone, hskipped, hstored⟩ := of_erase herased
  have hthreads := (Host.mk.inj hhosts).1
  unfold storeAtBoundary at hone htwo
  rcases hfirst : runBoundary ports ⟨session, host, [], .empty⟩ agent queue newTurn with
    ⟨fault | ⟨⟩, run⟩
  all_goals
    rcases hsecond : runBoundary other ⟨session, host, [], .empty⟩ agent queue newTurn with
      ⟨fault' | ⟨⟩, run'⟩
  all_goals
    rw [hfirst] at hone
    rw [hsecond] at htwo
    rw [hfirst, hsecond] at hended hsessions hthreads hdone hskipped hstored
    cases hended
  · cases hone
    cases htwo
    exact ⟨rfl, hstored.symm, hskipped.symm, hsessions.symm, hthreads.symm, by rw [hdone]⟩
  · cases hone
    cases htwo
    exact ⟨rfl, hstored.symm, hskipped.symm, hsessions.symm, hthreads.symm, rfl⟩

/-- Whatever is pushed, read and added and whatever the ports answer, over any number of instances:
no item is stored twice, what is marked as read is in the thread and no two queued items share an
identity. A boundary stores the queued items that the thread does not hold, in their order, all of
them when it ends well; on a fault it gives back the items neither stored nor skipped; and a mark
that fails is reported and changes nothing else. -/
theorem boundary_delivers (hlawful : Conversation.Lawful C) (ports : Ports MailItem) (thread : C)
    (ops : List Op) :
    let site := (Site.opening thread).run ports ops
    site.stored.Nodup ∧ (∀ id ∈ site.stored, id ∈ entryIds site.host.thread) ∧
    (∀ id ∈ site.host.marked, id ∈ entryIds site.host.thread) ∧
    (site.queue.map InboxItem.id).Nodup ∧
    ∀ session, site.session = some session → ∀ agent newTurn outcome next after left,
      storeAtBoundary ports session site.host agent site.queue newTurn =
        (outcome, next, after, left) →
      let held := fun item : InboxItem => holds site.host.thread item.id
      let report := reportOf outcome
      Gains site.host.thread after.thread report.stored ∧
      (∃ rest, report.stored ++ rest = (site.queue.filter (!held ·)).map InboxItem.id) ∧
      (outcome.isOk = true → left = [] ∧
        report.stored = (site.queue.filter (!held ·)).map InboxItem.id ∧
        report.skipped = (site.queue.filter held).map InboxItem.id ∧
        ∀ item ∈ site.queue, holds after.thread item.id = true) ∧
      (outcome.isOk = false → left = site.queue.filter (fun item =>
          !(report.skipped ++ report.stored).contains item.id) ∧
        ∀ later, left <+: left.pushAll later) ∧
      after.marked = site.host.marked ++
        readOf ports site.host.markCalls (report.skipped ++ report.stored) ∧
      report.unmarked = unreadOf ports site.host.markCalls (report.skipped ++ report.stored) ∧
      ∀ other : Ports MailItem, other.thread = ports.thread →
        other.mailEntry = ports.mailEntry → ∀ outcome' next' after' left',
        storeAtBoundary other session site.host agent site.queue newTurn =
          (outcome', next', after', left') →
        (outcome'.map fun _ => ()).mapError (·.fault) =
            (outcome.map fun _ => ()).mapError (·.fault) ∧
          (reportOf outcome').stored = report.stored ∧
            (reportOf outcome').skipped = report.skipped ∧
              next' = next ∧ after'.thread = after.thread ∧ left' = left := by
  intro site
  have hkept : site.Kept := (Site.Kept.opening thread).run hlawful ops
  refine ⟨hkept.stored.1, hkept.stored.2, hkept.marked, hkept.queue, ?_⟩
  intro session hused agent newTurn outcome next after left hbounded
  have hinsync := hkept.sync session hused
  have hdelivered :=
    (@storeAtBoundary_delivered C _ ports hlawful session site.host hinsync agent site.queue newTurn).1
  have hsame : (fun item : InboxItem => session.holds item.id) =
      fun item => holds site.host.thread item.id := by
    funext item
    unfold Session.holds
    rw [hinsync]
  rw [hbounded] at hdelivered
  have hordered := hdelivered.ordered
  have hskips := fun report hended => (hdelivered.well report hended).2.1
  have hstores := fun report hended => (hdelivered.well report hended).2.2
  simp only [fun item : InboxItem => congrFun hsame item] at hordered hskips hstores
  refine ⟨hdelivered.gains, hordered, ?_, ?_, hdelivered.marked, hdelivered.unmarked,
    fun other hthreads hmails outcome' next' after' left' hagain =>
      storeAtBoundary_alike hthreads hmails session site.host agent site.queue newTurn hbounded hagain⟩
  · intro hended
    rcases outcome with error | report
    · cases hended
    · refine ⟨(hdelivered.well report rfl).1, hstores report rfl, hskips report rfl, ?_⟩
      intro item hamong
      by_cases hbefore : holds site.host.thread item.id = true
      · exact hdelivered.gains.holds hbefore
      · refine holds_iff.mpr ((hdelivered.gains.mem_iff item.id).mpr (Or.inr ?_))
        have hfresh : item.id ∈ report.stored := by
          rw [hstores report rfl]
          exact List.mem_map_of_mem (List.mem_filter.mpr ⟨hamong, by simp [hbefore]⟩)
        exact hfresh
  · intro hended
    rcases outcome with error | report
    · exact ⟨hdelivered.fault error rfl, fun later => pushAll_extends later left⟩
    · cases hended

section Samples

/-- A message that the inbox gives as it is. -/
private def said (id : EntryId) : InboxItem := .Entry ⟨.HumanMessage id, trivial⟩

/-- Ports that lose the mark of the first item and take everything else. -/
private def losing : Ports MailItem :=
  ⟨fun _ => none, fun call => if call = 0 then some (.Fault "lost") else none,
    fun _ mail => .ok (.RuntimeNotice mail.id)⟩

/-- The second item is stored first, the queue then gets the first before it. -/
private def crossed : Site Ledger :=
  (Site.opening ⟨[]⟩).run losing
    [.Start, .Push (said 2), .Boundary 0 7, .Push (said 1), .Push (said 2)]

private def crossing : Except BoundaryError Boundary × Session Ledger × Host Ledger × Queue :=
  storeAtBoundary losing (.start crossed.host.thread) crossed.host 0 crossed.queue 8

theorem boundary_delivers_crossed :
    (crossed.stored.Nodup ∧ (∀ id ∈ crossed.host.marked, id ∈ entryIds crossed.host.thread)) ∧
    crossing.2.2.2 = [] ∧ (reportOf crossing.1).stored = [1] ∧
      (reportOf crossing.1).skipped = [2] ∧ entryIds crossing.2.2.1.thread = [2, 1] := by
  have hall := boundary_delivers Ledger.lawful losing ⟨[]⟩
    [.Start, .Push (said 2), .Boundary 0 7, .Push (said 1), .Push (said 2)]
  obtain ⟨-, -, hwell, -⟩ := hall.2.2.2.2 (.start crossed.host.thread) rfl 0 8
    crossing.1 crossing.2.1 crossing.2.2.1 crossing.2.2.2 rfl
  obtain ⟨hleft, hstored, hskipped, -⟩ := hwell (by decide +kernel)
  exact ⟨⟨hall.1, hall.2.2.1⟩, hleft, hstored, hskipped, by decide +kernel⟩

/-- A boundary that ends well may leave the thread with a skipped item before one that the queue has
ahead of it. -/
theorem boundary_order_crossed :
    ¬ ∀ (ports : Ports MailItem) (thread : Ledger) (ops : List Op) (session : Session Ledger)
      (agent : AgentId) (newTurn : TurnId),
      let site := (Site.opening thread).run ports ops
      let result := storeAtBoundary ports session site.host agent site.queue newTurn
      site.session = some session → result.1.isOk = true →
        ((site.queue.map InboxItem.id).Sublist (entryIds result.2.2.1.thread)) := by
  intro hordered
  have hkept := hordered losing ⟨[]⟩
    [.Start, .Push (said 2), .Boundary 0 7, .Push (said 1), .Push (said 2)]
    (.start crossed.host.thread) 0 8 rfl (by decide +kernel)
  have hreversed : ¬ ((crossed.queue.map InboxItem.id).Sublist
      (entryIds crossing.2.2.1.thread)) := by decide +kernel
  exact hreversed hkept

end Samples

end LlmGraph.Agentic
