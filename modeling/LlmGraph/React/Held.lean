/- digest: A thread as the messages that it holds by their ids: what each write leaves of it, and how an
   operation of a documented store acts on it. -/

import LlmGraph.React.ThreadStore

set_option autoImplicit false
set_option relaxedAutoImplicit false

namespace LlmGraph.React

open Function (update)
open Lib (Act)
open Lib.Act (Holds)

/-- The messages of a thread by their ids. -/
abbrev Held (D : Type) := String → Option (Message D)

def Threads.held {D : Type} (threads : Threads D) (id : ThreadId) : Held D := fun key =>
  (threads id).bind fun thread => thread.message key

section Messages

variable {D : Type} {thread : Thread D}

theorem Thread.message_id {key : String} {message : Message D}
    (hmessage : thread.message key = some message) : message.id = key := by
  have hfound := List.find?_some hmessage
  simpa using hfound

theorem Thread.message_push {message : Message D} (hnone : thread.message message.id = none) :
    (thread.push message hnone).message = update thread.message message.id (some message) := by
  funext key
  unfold Thread.message Thread.push
  rw [List.find?_append]
  by_cases hkey : key = message.id
  · subst hkey
    have hbefore : (thread.messages.find? fun held => held.id == message.id) = none := hnone
    rw [Function.update_self, hbefore, Option.none_or]
    simp
  · rw [Function.update_of_ne hkey]
    have hlast : ([message].find? fun held => held.id == key) = none := by
      simpa using Ne.symm hkey
    rw [hlast, Option.or_none]

/-- A record put in its place is the message under its id. -/
theorem Thread.message_put {held record : TurnRecord D}
    (hheld : thread.message record.id = some (.Turn held)) :
    (thread.put record).message = update thread.message record.id (some (.Turn record)) := by
  have hid : held.id = record.id := Thread.message_id hheld
  have hplaced : Message.put record (.Turn held) = .Turn record := if_pos hid
  have hother : ∀ message ∈ thread.messages, message.id ≠ record.id →
      message.put record = message := by
    intro message _ hne
    cases message with
    | Input input => rfl
    | Turn other => exact if_neg hne
  funext key
  have hfind : (thread.put record).message key = (thread.message key).map (Message.put record) := by
    unfold Thread.message Thread.put
    dsimp only
    rw [List.find?_map]
    congr 2
    funext message
    simp
  rw [hfind]
  by_cases hkey : key = record.id
  · subst hkey
    rw [Function.update_self, hheld, Option.map_some, hplaced]
  · rw [Function.update_of_ne hkey]
    cases hfound : thread.message key with
    | none => rfl
    | some message =>
      have hmem : message ∈ thread.messages := List.mem_of_find?_eq_some hfound
      have hne : message.id ≠ record.id := by
        rw [Thread.message_id hfound]
        exact hkey
      rw [Option.map_some, hother message hmem hne]

end Messages

section Left

variable {D : Type} [StepDrafts D]

/-- What a write that is answered has done. -/
inductive Done (held : Held D) : Write → Held D → Prop
  | created (origin : Origin) : Done held (.create origin) held
  | stored {input : UserInput} (hfree : held input.id = none) :
      Done held (.storeInput input) (update held input.id (some (.Input input)))
  | kept {input : UserInput} (hstored : held input.id = some (.Input input)) :
      Done held (.storeInput input) held
  | opened {id : TurnId} (author : Author) (hfree : held id = none) :
      Done held (.openTurn id author) (update held id (some (.Turn ⟨id, author, .Streaming, [], none⟩)))
  | reopened {id : TurnId} {record : TurnRecord D} (hstored : held id = some (.Turn record)) :
      Done held (.openTurn id record.author) held
  | folded {id : TurnId} {event : StreamEvent} {record : TurnRecord D}
      (hstored : held id = some (.Turn record)) (hstreams : record.status = .Streaming)
      (htaken : (record.fold event).1 = .ok ()) :
      Done held (.pushEvent id event) (update held id (some (.Turn (record.fold event).2)))
  | pushed {id : TurnId} {index : Nat} {results : List ToolResult} {record next : TurnRecord D}
      (hstored : held id = some (.Turn record)) (hstreams : record.status = .Streaming)
      (htaken : record.pushResults index results = .ok next) :
      Done held (.pushResults id index results) (update held id (some (.Turn next)))
  | ended {id : TurnId} {ending : TurnEnd} {record next : TurnRecord D}
      (hstored : held id = some (.Turn record)) (htaken : record.finish ending = .ok next) :
      Done held (.endTurn id ending) (update held id (some (.Turn next)))

/-- What a write leaves, done or not: a refused event may leave its draft. -/
inductive Left (held : Held D) : Write → Held D → Prop
  | same (write : Write) : Left held write held
  | done {write : Write} {next : Held D} (hdone : Done held write next) : Left held write next
  | draft {id : TurnId} {event : StreamEvent} {record : TurnRecord D}
      (hstored : held id = some (.Turn record)) (hstreams : record.status = .Streaming) :
      Left held (.pushEvent id event) (update held id (some (.Turn (record.fold event).2)))

section Records

variable {record next : TurnRecord D}

theorem TurnRecord.join_kept {step : Step} (hjoin : record.join step = .ok next) :
    next.id = record.id ∧ next.author = record.author ∧ next.status = record.status ∧
      next.draft = record.draft := by
  unfold TurnRecord.join at hjoin
  split at hjoin
  · cases hjoin
    exact ⟨rfl, rfl, rfl, rfl⟩
  · split at hjoin
    · cases hjoin
    · cases hjoin
      exact ⟨rfl, rfl, rfl, rfl⟩

theorem TurnRecord.fold_kept (record : TurnRecord D) (event : StreamEvent) :
    (record.fold event).2.id = record.id ∧ (record.fold event).2.author = record.author ∧
      (record.fold event).2.status = record.status := by
  unfold TurnRecord.fold
  dsimp only
  split
  · exact ⟨rfl, rfl, rfl⟩
  · split
    · split
      · exact ⟨rfl, rfl, rfl⟩
      · split
        · exact ⟨rfl, rfl, rfl⟩
        · rename_i joined hjoin
          obtain ⟨hid, hauthor, hstatus, -⟩ := TurnRecord.join_kept hjoin
          exact ⟨hid, hauthor, hstatus⟩
    · exact ⟨rfl, rfl, rfl⟩

theorem TurnRecord.pushResults_kept {index : Nat} {results : List ToolResult}
    (hpushed : record.pushResults index results = .ok next) :
    next.id = record.id ∧ next.author = record.author ∧ next.status = record.status := by
  unfold TurnRecord.pushResults at hpushed
  split at hpushed
  · cases hpushed
    exact ⟨rfl, rfl, rfl⟩
  · cases hpushed
  · split at hpushed
    · cases hpushed
    · split at hpushed
      · cases hpushed
      · split at hpushed
        · cases hpushed
        · split at hpushed
          · cases hpushed
          · cases hpushed
            exact ⟨rfl, rfl, rfl⟩

theorem TurnRecord.keepCut_kept (record : TurnRecord D) :
    record.keepCut.id = record.id ∧ record.keepCut.author = record.author := by
  unfold TurnRecord.keepCut
  dsimp only
  split
  · exact ⟨rfl, rfl⟩
  · split
    · exact ⟨rfl, rfl⟩
    · rename_i joined hjoin
      obtain ⟨hid, hauthor, -⟩ := TurnRecord.join_kept hjoin
      exact ⟨hid, hauthor⟩

theorem TurnRecord.repair_kept (record : TurnRecord D) :
    record.repair.id = record.id ∧ record.repair.author = record.author := by
  unfold TurnRecord.repair
  split
  · exact record.keepCut_kept
  · exact record.keepCut_kept

/-- A turn that is ended stands as it was ended, and one that stood so already is unchanged. -/
theorem TurnRecord.finish_ok {ending : TurnEnd} (hfinish : record.finish ending = .ok next) :
    next.id = record.id ∧ next.author = record.author ∧ next.status = ending.status ∧
      (record.status = .Streaming ∨ next = record) := by
  unfold TurnRecord.finish at hfinish
  split at hfinish
  · rename_i hstreams
    cases ending with
    | Completed =>
      dsimp only at hfinish
      split at hfinish
      · cases hfinish
      · cases hfinish
        exact ⟨rfl, rfl, rfl, .inl hstreams⟩
    | Failed =>
      cases hfinish
      exact ⟨record.repair_kept.1, record.repair_kept.2, rfl, .inl hstreams⟩
    | Cancelled =>
      cases hfinish
      exact ⟨record.repair_kept.1, record.repair_kept.2, rfl, .inl hstreams⟩
  · split at hfinish
    · rename_i hstatus
      cases hfinish
      exact ⟨rfl, rfl, hstatus, .inr rfl⟩
    · cases hfinish

end Records

section Threads

variable {thread next : Thread D} {turn : TurnId} {record : TurnRecord D}

omit [StepDrafts D] in
theorem Thread.openRecord_ok (hopened : thread.openRecord turn = .ok record) :
    thread.message turn = some (.Turn record) ∧ record.status = .Streaming := by
  unfold Thread.openRecord Thread.record at hopened
  split at hopened
  · rename_i found hfound
    split at hfound
    · rename_i held hheld
      cases hfound
      split at hopened
      · rename_i hstreams
        cases hopened
        exact ⟨hheld, hstreams⟩
      · cases hopened
    · cases hfound
  · cases hopened

omit [StepDrafts D] in
/-- A turn that is put back stands under its id. -/
theorem Thread.put_turn {changed : TurnRecord D} (hheld : thread.message turn = some (.Turn record))
    (hid : changed.id = record.id) :
    (thread.put changed).message = update thread.message turn (some (.Turn changed)) := by
  have hturn : turn = changed.id := (Thread.message_id hheld).symm.trans hid.symm
  rw [hturn] at hheld ⊢
  exact Thread.message_put hheld

theorem Thread.storeInput_done {input : UserInput} (hnext : thread.storeInput input = .ok next) :
    Done thread.message (.storeInput input) next.message := by
  unfold Thread.storeInput at hnext
  split at hnext
  · rename_i stored hheld
    split at hnext
    · rename_i hsame
      cases hnext
      subst hsame
      exact .kept hheld
    · cases hnext
  · cases hnext
  · rename_i hfree
    cases hnext
    have hpushed : (thread.push (.Input input) hfree).message =
        update thread.message input.id (some (.Input input)) :=
      @Thread.message_push D thread (.Input input) hfree
    exact hpushed.symm ▸ .stored hfree

theorem Thread.openTurn_done {author : Author} (hnext : thread.openTurn turn author = .ok next) :
    Done thread.message (.openTurn turn author) next.message := by
  unfold Thread.openTurn at hnext
  split at hnext
  · rename_i record hheld
    split at hnext
    · rename_i hsame
      cases hnext
      subst hsame
      exact .reopened hheld
    · cases hnext
  · cases hnext
  · rename_i hfree
    cases hnext
    have hpushed : (thread.push (.Turn ⟨turn, author, .Streaming, [], none⟩) hfree).message =
        update thread.message turn (some (.Turn ⟨turn, author, .Streaming, [], none⟩)) :=
      @Thread.message_push D thread (.Turn ⟨turn, author, .Streaming, [], none⟩) hfree
    exact hpushed.symm ▸ .opened author hfree

theorem Thread.pushResults_done {index : Nat} {results : List ToolResult}
    (hnext : thread.pushResults turn index results = .ok next) :
    Done thread.message (.pushResults turn index results) next.message := by
  unfold Thread.pushResults at hnext
  split at hnext
  · cases hnext
  · rename_i record hopened
    obtain ⟨hheld, hstreams⟩ := Thread.openRecord_ok hopened
    split at hnext
    · cases hnext
    · rename_i pushed hpushed
      cases hnext
      rw [Thread.put_turn hheld (TurnRecord.pushResults_kept hpushed).1]
      exact .pushed hheld hstreams hpushed

theorem Thread.endTurn_done {ending : TurnEnd} (hnext : thread.endTurn turn ending = .ok next) :
    Done thread.message (.endTurn turn ending) next.message := by
  unfold Thread.endTurn Thread.record at hnext
  split at hnext
  · cases hnext
  · rename_i record hrecord
    split at hrecord
    · rename_i found hheld
      cases hrecord
      split at hnext
      · cases hnext
      · rename_i ended hfinish
        cases hnext
        rw [Thread.put_turn hheld (TurnRecord.finish_ok hfinish).1]
        exact .ended hheld hfinish
    · cases hrecord

end Threads

/-- What a write leaves of a thread that the store holds. -/
theorem Thread.write_held (thread : Thread D) (id : ThreadId) (write : Write) :
    Left thread.message write (thread.write id write).2.message ∧
      ((thread.write id write).1 = .ok () →
        Done thread.message write (thread.write id write).2.message) := by
  have hkept : ∀ (result : Except StoreError (Thread D)),
      (∀ next, result = .ok next → Done thread.message write next.message) →
      Left thread.message write (Thread.write.kept thread result).2.message ∧
        ((Thread.write.kept thread result).1 = .ok () →
          Done thread.message write (Thread.write.kept thread result).2.message) := by
    intro result hdone
    cases result with
    | error error => exact ⟨.same write, fun hok => by cases hok⟩
    | ok next => exact ⟨.done (hdone next rfl), fun _ => hdone next rfl⟩
  cases write with
  | create origin =>
    unfold Thread.write
    dsimp only
    split
    · exact ⟨.same _, fun _ => .created origin⟩
    · exact ⟨.same _, fun hok => by cases hok⟩
  | storeInput input => exact hkept _ fun next hnext => Thread.storeInput_done hnext
  | openTurn turn author => exact hkept _ fun next hnext => Thread.openTurn_done hnext
  | pushEvent turn event =>
    unfold Thread.write Thread.pushEvent
    dsimp only
    cases hopened : thread.openRecord turn with
    | error error => exact ⟨.same _, fun hok => by cases hok⟩
    | ok record =>
      obtain ⟨hheld, hstreams⟩ := Thread.openRecord_ok hopened
      dsimp only
      rw [Thread.put_turn hheld (record.fold_kept event).1]
      exact ⟨.draft hheld hstreams, fun hok => .folded hheld hstreams hok⟩
  | pushResults turn index results => exact hkept _ fun next hnext => Thread.pushResults_done hnext
  | endTurn turn ending => exact hkept _ fun next hnext => Thread.endTurn_done hnext

/-- What a write of a store leaves of the thread that it names. -/
theorem Threads.write_held (threads : Threads D) (id : ThreadId) (write : Write) :
    Left (threads.held id) write ((threads.write id write).2.held id) ∧
      ((threads.write id write).1 = .ok () →
        Done (threads.held id) write ((threads.write id write).2.held id)) := by
  unfold Threads.write
  cases hthread : threads id with
  | some thread =>
    have hbefore : threads.held id = thread.message := by
      funext key
      unfold Threads.held
      rw [hthread]
      rfl
    have hafter : Threads.held (update threads id (some (thread.write id write).2)) id =
        (thread.write id write).2.message := by
      funext key
      unfold Threads.held
      rw [Function.update_self]
      rfl
    dsimp only
    rw [hbefore, hafter]
    exact thread.write_held id write
  | none =>
    cases write with
    | create origin =>
      have hempty : Threads.held (update threads id (some ⟨origin, [], List.nodup_nil⟩)) id =
          threads.held id := by
        funext key
        unfold Threads.held
        rw [Function.update_self, hthread]
        rfl
      dsimp only
      rw [hempty]
      exact ⟨.same _, fun _ => .created origin⟩
    | storeInput input => exact ⟨.same _, fun hok => by cases hok⟩
    | openTurn turn author => exact ⟨.same _, fun hok => by cases hok⟩
    | pushEvent turn event => exact ⟨.same _, fun hok => by cases hok⟩
    | pushResults turn index results => exact ⟨.same _, fun hok => by cases hok⟩
    | endTurn turn ending => exact ⟨.same _, fun hok => by cases hok⟩

/-- The id that a write may take for a message of its own. -/
def Write.takes : Write → Option String
  | storeInput input => some input.id
  | openTurn turn _ => some turn
  | _ => none

/-- What a write leaves differs under one id at most: by a new message, or in a turn that was open. -/
inductive Differs (held : Held D) (write : Write) : Held D → Prop
  | same : Differs held write held
  | added {id : String} (message : Message D) (hfree : held id = none)
    (htakes : write.takes = some id) :
      Differs held write (update held id (some message))
  | changed {id : String} {record : TurnRecord D} (next : TurnRecord D)
      (hstored : held id = some (.Turn record)) (hstreams : record.status = .Streaming) :
      Differs held write (update held id (some (.Turn next)))

theorem Left.differs {held next : Held D} {write : Write} (hleft : Left held write next) :
    Differs held write next := by
  cases hleft with
  | same => exact .same
  | draft hstored hstreams' => exact .changed _ hstored hstreams'
  | done hdone =>
    cases hdone with
    | created => exact .same
    | stored hfree => exact .added _ hfree rfl
    | kept => exact .same
    | opened author hfree => exact .added _ hfree rfl
    | reopened => exact .same
    | folded hstored hstreams' => exact .changed _ hstored hstreams'
    | pushed hstored hstreams' => exact .changed _ hstored hstreams'
    | @ended id ending record next hstored htaken =>
      rcases (TurnRecord.finish_ok htaken).2.2.2 with hstreams | rfl
      · exact .changed _ hstored hstreams
      · rw [← hstored, Function.update_eq_self]
        exact .same

/-- A message that a thread holds stays. -/
theorem Left.grows {held next : Held D} {write : Write} (hleft : Left held write next) {id : String}
    (hsome : (held id).isSome = true) : (next id).isSome = true := by
  cases hleft.differs with
  | same => exact hsome
  | @added other message hfree htakes =>
    by_cases hid : id = other
    · rw [hid, Function.update_self]
      rfl
    · rw [Function.update_of_ne hid]
      exact hsome
  | @changed other record changed hstored hstreams =>
    by_cases hid : id = other
    · rw [hid, Function.update_self]
      rfl
    · rw [Function.update_of_ne hid]
      exact hsome

/-- A message that does not stream stays as it is. -/
theorem Left.final {held next : Held D} {write : Write} (hleft : Left held write next) {id : String}
    {message : Message D} (hheld : held id = some message) (hstill : message.status ≠ .Streaming) :
    next id = some message := by
  cases hleft.differs with
  | same => exact hheld
  | @added other message hfree htakes =>
    rw [Function.update_of_ne fun hid => ?_]
    · exact hheld
    · rw [hid, hfree] at hheld
      cases hheld
  | @changed other record changed hstored hstreams =>
    rw [Function.update_of_ne fun hid => ?_]
    · exact hheld
    · rw [hid, hstored] at hheld
      cases hheld
      exact hstill hstreams

/-- What some writes leave: a message stays, and one that does not stream stays as it is. -/
structure Forward (held next : Held D) : Prop where
  grows : ∀ id, (held id).isSome = true → (next id).isSome = true
  final : ∀ id message, held id = some message → message.status ≠ .Streaming → next id = some message

omit [StepDrafts D] in
theorem Forward.refl (held : Held D) : Forward held held := ⟨fun _ hsome => hsome, fun _ _ hheld _ => hheld⟩

omit [StepDrafts D] in
theorem Forward.trans {held middle next : Held D} (hfirst : Forward held middle)
    (hrest : Forward middle next) : Forward held next where
  grows := fun id hsome => hrest.grows id (hfirst.grows id hsome)
  final := fun id message hheld hstill => hrest.final id message (hfirst.final id message hheld hstill) hstill

theorem Left.forward {held next : Held D} {write : Write} (hleft : Left held write next) : Forward held next :=
  ⟨fun _ => hleft.grows, fun _ _ => hleft.final⟩

/-- A message is new under the id that the write takes alone. -/
theorem Left.new {held next : Held D} {write : Write} (hleft : Left held write next) {id : String}
    (hsome : (next id).isSome = true) (hother : write.takes ≠ some id) : (held id).isSome = true := by
  cases hleft.differs with
  | same => exact hsome
  | @added other message hfree htakes =>
    rw [Function.update_of_ne fun hid => ?_] at hsome
    · exact hsome
    · exact hother (hid ▸ htakes)
  | @changed other record changed hstored hstreams =>
    by_cases hid : id = other
    · rw [hid, hstored]
      rfl
    · rw [Function.update_of_ne hid] at hsome
      exact hsome

/-- A write touches no other thread. -/
theorem Threads.write_other (threads : Threads D) {id other : ThreadId} (hother : other ≠ id)
    (write : Write) : (threads.write id write).2 other = threads other := by
  unfold Threads.write
  cases hthread : threads id with
  | some thread => exact Function.update_of_ne hother ..
  | none =>
    cases write with
    | create origin => exact Function.update_of_ne hother ..
    | storeInput input => rfl
    | openTurn turn author => rfl
    | pushEvent turn event => rfl
    | pushResults turn index results => rfl
    | endTurn turn ending => rfl

theorem Threads.held_other (threads : Threads D) {id other : ThreadId} (hother : other ≠ id)
    (write : Write) : (threads.write id write).2.held other = threads.held other := by
  funext key
  unfold Threads.held
  rw [threads.write_other hother]

end Left

section Desks

variable {C D σ : Type} [Messages C] [StepDrafts D] {store : ThreadStore C σ} {threads : σ → Threads D}
  {thread : ThreadId}

/-- The thread of a run is in a given shape, and every other thread is as it was. -/
def Stands (threads : σ → Threads D) (thread : ThreadId) (before : Threads D) (shape : Held D → Prop)
    (desk : Desk σ) : Prop :=
  shape ((threads desk.store).held thread) ∧
    ∀ other, other ≠ thread → threads desk.store other = before other

variable {before : Threads D}

/-- A write of a run: it is done, or it fails the node and has left what it may leave. -/
theorem ThreadStore.Documented.write_stands (hdocumented : store.Documented threads)
    {shape post exit : Held D → Prop} {write : Write}
    (hdone : ∀ held next, shape held → Done held write next → post next)
    (hleft : ∀ held next, shape held → Left held write next → exit next) :
    Holds (Stands threads thread before shape) (ask (store.write thread write) : Act (Desk σ) (Halt C) Unit)
      (fun _ => Stands threads thread before post) fun _ => Stands threads thread before exit := by
  rintro ⟨host, left⟩ ⟨hshape, hothers⟩
  have hwritten := (threads host).write_held thread write
  unfold ask
  cases left with
  | zero => exact .inr ⟨.Cut, ⟨host, 0⟩, rfl, hleft _ _ hshape (.same write), hothers⟩
  | succ left =>
    dsimp only
    cases hanswer : store.write thread write host with
    | mk answer next =>
      cases answer with
      | ok value =>
        have hmade : (threads host).write thread write = (.ok (), threads next) := by
          have hdone := hdocumented.done thread write host
          rw [hanswer] at hdone
          exact hdone rfl
        rw [hmade] at hwritten
        refine .inl ⟨value, ⟨next, left⟩, rfl, hdone _ _ hshape (hwritten.2 rfl), fun other hother => ?_⟩
        have hsame := (threads host).write_other hother write
        rw [hmade] at hsame
        exact hsame.trans (hothers other hother)
      | error error =>
        have hrefused := hdocumented.refused thread write host error
        rw [hanswer] at hrefused
        refine .inr ⟨threadFailed error, ⟨next, left⟩, rfl, ?_⟩
        rcases hrefused rfl with hsame | hmade
        · dsimp only at hsame
          unfold Stands
          dsimp only
          rw [hsame]
          exact ⟨hleft _ _ hshape (.same write), hothers⟩
        · dsimp only at hmade
          unfold Stands
          dsimp only
          rw [hmade]
          exact ⟨hleft _ _ hshape hwritten.1, fun other hother =>
            ((threads host).write_other hother write).trans (hothers other hother)⟩

/-- A write that is done, whatever is left of one that is not. -/
theorem ThreadStore.Documented.write_done (hdocumented : store.Documented threads)
    {shape post : Held D → Prop} {write : Write}
    (hdone : ∀ held next, shape held → Done held write next → post next) :
    Holds (Stands threads thread before shape) (ask (store.write thread write) : Act (Desk σ) (Halt C) Unit)
      (fun _ => Stands threads thread before post) fun _ _ => True := by
  have hleft : ∀ held next, shape held → Left held write next → (fun _ : Held D => True) next :=
    fun _ _ _ _ => trivial
  exact (hdocumented.write_stands hdone hleft).imp (fun _ hpre => hpre) (fun _ _ hpost => hpost)
    fun _ _ _ => trivial

/-- A read of a run shows the thread as it stands. -/
theorem ThreadStore.Documented.read_stands (hdocumented : store.Documented threads)
    {shape : Held D → Prop} :
    Holds (Stands threads thread before shape)
      (ask (store.read thread) : Act (Desk σ) (Halt C) (Option (ThreadView C)))
      (fun found desk => Stands threads thread before shape desk ∧
        ∀ view, found = some view →
          ∃ kept, threads desk.store thread = some kept ∧ view.Shows kept)
      fun _ => Stands threads thread before shape := by
  rintro ⟨host, left⟩ hstands
  unfold ask
  cases left with
  | zero => exact .inr ⟨.Cut, ⟨host, 0⟩, rfl, hstands⟩
  | succ left =>
    dsimp only
    cases hanswer : store.read thread host with
    | mk answer next =>
      have hkept := hdocumented.kept thread host
      rw [hanswer] at hkept
      dsimp only at hkept
      have hnext : Stands threads thread before shape ⟨next, left⟩ := by
        unfold Stands at hstands ⊢
        dsimp only at hstands ⊢
        rw [hkept]
        exact hstands
      cases answer with
      | error error => exact .inr ⟨threadFailed error, ⟨next, left⟩, rfl, hnext⟩
      | ok found =>
        refine .inl ⟨found, ⟨next, left⟩, rfl, hnext, fun view hview => ?_⟩
        have hshows := hdocumented.shows thread host view
        rw [hanswer, hview] at hshows
        obtain ⟨kept, hthread, hshown⟩ := hshows rfl
        dsimp only
        rw [hkept]
        exact ⟨kept, hthread, hshown⟩

end Desks

end LlmGraph.React
