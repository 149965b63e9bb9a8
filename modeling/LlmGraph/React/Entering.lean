/- digest: The entry of a durable agent into its thread, cut anywhere: it ends, and what it finds are the
   turns of its call, rank after rank, the last of them failed where it was open. -/

import LlmGraph.Lib.Ranked
import LlmGraph.React.Durable
import LlmGraph.React.Held

set_option autoImplicit false
set_option relaxedAutoImplicit false

namespace LlmGraph.React

open Function (update)
open Lib (Act Numbered Ranked)
open Lib.Act (Holds)
open Superstep (GraphError)

variable {C D σ : Type}

/-- The turn that a message holds so far, if it is one of a turn. -/
def Message.turn : Message D → Option React.Turn
  | Input _ => none
  | Turn record => record.turn

/-- Where a message stands that a thread may hold. -/
def Held.status (held : Held D) (id : String) : MessageStatus :=
  ((held id).map Message.status).getD .Failed

/-- The turn of an entry that has an id. -/
def Entry.turnUnder (id : TurnId) : Entry → Option React.Turn
  | UserInput _ => none
  | Turn turn => if turn.id = id then some turn else none

theorem turnOf_eq [Messages C] (c : C) (id : TurnId) :
    turnOf c id = (entries c).findSome? (Entry.turnUnder id) := by
  unfold turnOf
  congr 1
  funext entry
  cases entry <;> rfl

section Views

variable [Messages C] {thread : Thread D} {view : ThreadView C}

theorem ThreadView.Shows.message (hshows : view.Shows thread) (id : String) :
    view.message id = (thread.message id).map Message.shown := by
  unfold ThreadView.message
  rw [hshows.messages]
  unfold Thread.shown Thread.message
  rw [List.find?_map]
  rfl

/-- A message adds to the search for a turn what it holds under the id. -/
private theorem entry_under (message : Message D) (rest : List Entry) (id : TurnId) :
    (message.entry.toList ++ rest).findSome? (Entry.turnUnder id) =
      (if message.id = id then message.turn else none).or
        (rest.findSome? (Entry.turnUnder id)) := by
  cases message with
  | Input input =>
    unfold Message.entry Message.turn
    rw [ite_self, Option.none_or]
    rfl
  | Turn record =>
    unfold Message.entry Message.turn TurnRecord.turn
    by_cases hempty : record.items.isEmpty = true
    · simp [hempty]
    · simp only [hempty, Bool.false_eq_true, if_false, Option.map_some, Option.toList_some,
        List.singleton_append, List.findSome?_cons, Entry.turnUnder, Message.id]
      by_cases hid : record.id = id
      · rw [if_pos hid]
        rfl
      · rw [if_neg hid]
        rfl

/-- The turn that a conversation holds under an id is that of the message. -/
theorem ThreadView.Shows.turnOf (hshows : view.Shows thread) (id : TurnId) :
    React.turnOf view.conversation id = (thread.message id).bind Message.turn := by
  have hfind : ∀ messages : List (Message D), (messages.map Message.id).Nodup →
      (messages.filterMap Message.entry).findSome? (Entry.turnUnder id) =
        (messages.find? fun message => message.id == id).bind Message.turn := by
    intro messages hdistinct
    induction messages with
    | nil => rfl
    | cons message rest hind =>
      obtain ⟨hapart, hrest⟩ := List.nodup_cons.mp hdistinct
      have hsplit : (message :: rest).filterMap Message.entry =
          message.entry.toList ++ rest.filterMap Message.entry := by
        cases hentry : message.entry with
        | none => rw [List.filterMap_cons_none hentry]; rfl
        | some entry => rw [List.filterMap_cons_some hentry]; rfl
      rw [hsplit, entry_under, hind hrest]
      by_cases hid : message.id = id
      · have hnone : (rest.find? fun message => message.id == id) = none := by
          refine List.find?_eq_none.mpr fun other hother hsame => hapart ?_
          exact List.mem_map.mpr ⟨other, hother, (by simpa using hsame : other.id = id).trans hid.symm⟩
        rw [if_pos hid, hnone, List.find?_cons_of_pos (by simpa using hid)]
        exact Option.or_none
      · rw [if_neg hid, Option.none_or, List.find?_cons_of_neg (by simpa using hid)]
  rw [turnOf_eq, hshows.entries]
  exact hfind thread.messages thread.distinct

end Views

section Turns

variable {view : ThreadView C} {held : Held D} {key : Nat → TurnId} {past : Message D → Prop} {last : Nat}

/-- The ranks of a call with what a thread holds of them. -/
def ranksOf (held : Held D) (key : Nat → TurnId) (first count : Nat) :
    List (Nat × TurnId × MessageStatus) :=
  (List.range' first count).map fun rank => (rank, key rank, held.status (key rank))

/-- The search for the turns of a call finds them all before its bound is spent. -/
theorem heldTurns_some (hshows : ∀ id, view.message id = (held id).map Message.shown)
    (hranked : Ranked key past held last) (bound rank : Nat) (hpos : 0 < rank) (hle : rank ≤ last + 1)
    (hbound : last + 1 < rank + bound) :
    heldTurns view key bound rank = some (ranksOf held key rank (last + 1 - rank)) := by
  induction bound generalizing rank with
  | zero => omega
  | succ bound hind =>
    unfold heldTurns
    by_cases hlast : rank = last + 1
    · subst hlast
      rw [hshows, hranked.none_of_lt (Nat.lt_succ_self last), Nat.sub_self]
      rfl
    · obtain ⟨message, hmessage⟩ := hranked.some_of_le hpos (by omega)
      have hlater := hind (rank + 1) (Nat.succ_pos _) (by omega) (by omega)
      have hcount : last + 1 - rank = (last + 1 - (rank + 1)) + 1 := by omega
      rw [hshows, hmessage, Option.map_some]
      dsimp only
      rw [hlater, Option.map_some, hcount]
      unfold ranksOf Held.status
      rw [List.range'_succ, List.map_cons, hmessage]
      rfl

theorem ranksOf_last (held : Held D) (key : Nat → TurnId) (count : Nat) :
    ranksOf held key 1 (count + 1) =
      ranksOf held key 1 count ++ [(count + 1, key (count + 1), held.status (key (count + 1)))] := by
  unfold ranksOf
  rw [List.range'_1_concat, List.map_append, Nat.add_comm 1 count]
  rfl

end Turns

section Opening

variable {inputs stored : List UserInput} {before held : Held D}

/-- Some inputs may have been stored in a thread, and nothing else has changed. -/
structure Opened (inputs : List UserInput) (before held : Held D) : Prop where
  apart : ∀ id, (∀ input ∈ inputs, id ≠ input.id) → held id = before id
  kept : ∀ id, (before id).isSome = true → held id = before id

theorem Opened.refl (inputs : List UserInput) (before : Held D) : Opened inputs before before :=
  ⟨fun _ _ => rfl, fun _ _ => rfl⟩

theorem Opened.store (hopened : Opened inputs before held) {input : UserInput}
    (hinput : input ∈ inputs) (hfree : held input.id = none) :
    Opened inputs before (update held input.id (some (.Input input))) where
  apart := by
    intro id hapart
    rw [Function.update_of_ne (hapart input hinput)]
    exact hopened.apart id hapart
  kept := by
    intro id hsome
    have hne : id ≠ input.id := by
      rintro rfl
      rw [← hopened.kept _ hsome, hfree] at hsome
      cases hsome
    rw [Function.update_of_ne hne]
    exact hopened.kept id hsome

variable [StepDrafts D]

/-- An input that a write stores is held, and so is what was held before. -/
theorem Opened.written (hopened : Opened inputs before held) {input : UserInput}
    (hinput : input ∈ inputs) {next : Held D} (hleft : Left held (.storeInput input) next) :
    Opened inputs before next ∧ ∀ id, (held id).isSome = true → (next id).isSome = true := by
  cases hleft with
  | same => exact ⟨hopened, fun _ hsome => hsome⟩
  | done hdone =>
    cases hdone with
    | stored hfree =>
      refine ⟨hopened.store hinput hfree, fun id hsome => ?_⟩
      by_cases hid : id = input.id
      · rw [hid, Function.update_self]
        rfl
      · rw [Function.update_of_ne hid]
        exact hsome
    | kept hstored => exact ⟨hopened, fun _ hsome => hsome⟩

end Opening

section Storing

variable [Messages C] [StepDrafts D] {store : ThreadStore C σ} {threads : σ → Threads D}
  {thread : ThreadId} {elsewhere : Threads D} {before : Held D} {view : ThreadView C}

/-- A user input that is pushed is no turn. -/
theorem turnOf_pushInput (hlawful : Messages.Lawful C) {c next : C} {input : UserInput}
    (hpushed : Messages.pushInput c input = .ok next) (id : TurnId) :
    turnOf next id = turnOf c id := by
  rw [turnOf_eq, turnOf_eq, hlawful.pushInput c next input hpushed, List.findSome?_append]
  exact Option.or_none

/-- The inputs are stored one after the other, and every one is held at the end. -/
theorem storeInputs_stands (hlawful : Messages.Lawful C) (hdocumented : store.Documented threads)
    (hshows : ∀ id, view.message id = (before id).map Message.shown) {all : List UserInput}
    (inputs : List UserInput) (hall : ∀ input ∈ inputs, input ∈ all) (stored : List UserInput) (c : C) :
    Holds (Stands threads thread elsewhere fun held =>
        Opened all before held ∧ ∀ input ∈ stored, (held input.id).isSome = true)
      (storeInputs store thread view inputs c)
      (fun next desk => (∀ id, turnOf next id = turnOf c id) ∧
        Stands threads thread elsewhere (fun held => Opened all before held ∧
          ∀ input ∈ stored ++ inputs, (held input.id).isSome = true) desk)
      fun _ => Stands threads thread elsewhere (Opened all before) := by
  induction inputs generalizing stored c with
  | nil =>
    refine .pure fun desk hstands => ⟨fun _ => rfl, ?_⟩
    rw [List.append_nil]
    exact hstands
  | cons input rest hind =>
    have hrest : ∀ other ∈ rest, other ∈ all := fun other hother => hall other (List.mem_cons_of_mem _ hother)
    have hinput : input ∈ all := hall input List.mem_cons_self
    have hagain := hind hrest (stored ++ [input])
    have hsplit : stored ++ input :: rest = stored ++ [input] ++ rest := by simp
    unfold storeInputs
    split
    · rename_i hheld
      rw [hshows, Option.isSome_map] at hheld
      rw [hsplit]
      refine (hagain c).weaken _ _ fun desk hstands => ⟨⟨hstands.1.1, ?_⟩, hstands.2⟩
      intro other hother
      rcases List.mem_append.mp hother with hother | hother
      · exact hstands.1.2 other hother
      · rw [List.mem_singleton.mp hother, hstands.1.1.kept _ hheld]
        exact hheld
    · refine .bind (fun _ => Stands threads thread elsewhere fun held =>
        Opened all before held ∧ ∀ other ∈ stored ++ [input], (held other.id).isSome = true) ?_ ?_
      · refine hdocumented.write_stands (fun held next hshape hdone => ?_) fun held next hshape hleft =>
          (hshape.1.written hinput hleft).1
        obtain ⟨hopened, hgrows⟩ := hshape.1.written hinput (.done hdone)
        refine ⟨hopened, fun other hother => ?_⟩
        rcases List.mem_append.mp hother with hother | hother
        · exact hgrows _ (hshape.2 other hother)
        · rw [List.mem_singleton.mp hother]
          cases hdone with
          | stored hfree =>
            rw [Function.update_self]
            rfl
          | kept hheld' =>
            rw [hheld']
            rfl
      · intro _
        refine .bind (fun grown desk => (∀ id, turnOf grown id = turnOf c id) ∧
          Stands threads thread elsewhere (fun held => Opened all before held ∧
            ∀ other ∈ stored ++ [input], (held other.id).isSome = true) desk) ?_ ?_
        · exact .ofExcept (fun grown hpushed desk hstands =>
            ⟨turnOf_pushInput hlawful hpushed, hstands⟩) fun _ _ desk hstands =>
            ⟨hstands.1.1, hstands.2⟩
        · intro grown
          rw [hsplit]
          intro desk ⟨hsame, hstands⟩
          exact ((hagain grown).imp (fun _ hpre => hpre) (fun next _ hpost =>
            ⟨fun id => (hpost.1 id).trans (hsame id), hpost.2⟩) fun _ _ hexit => hexit) desk hstands

end Storing

section Entries

variable [Messages C] [StepDrafts D] {store : ThreadStore C σ} {threads : σ → Threads D}
  {thread : ThreadId} {elsewhere : Threads D} {key : Nat → TurnId} {past : MessageStatus → Prop}
  {inputs : List UserInput} {before held : Held D} {last : Nat}

/-- What a thread holds of a call: the turns of its first ranks, each past but the last, and none before
the opening of the call. -/
structure CallHeld (key : Nat → TurnId) (past : MessageStatus → Prop) (inputs : List UserInput)
    (held : Held D) (last : Nat) : Prop where
  ranked : Ranked key (fun message => past message.status) held last
  begun : 0 < last → ∀ input ∈ inputs, (held input.id).isSome = true

omit [StepDrafts D] in
/-- No turn of the call is held before its first run. -/
theorem CallHeld.none (hnone : ∀ rank, 0 < rank → held (key rank) = .none) :
    CallHeld key past inputs held 0 where
  ranked := by
    refine ⟨fun rank hpos => ?_, fun rank _ _ hlt => absurd hlt (Nat.not_lt_zero rank)⟩
    rw [hnone rank hpos]
    simp only [Option.isSome_none, Bool.false_eq_true, false_iff]
    omega
  begun := fun hpos => absurd hpos (Nat.lt_irrefl 0)

/-- The ids of a call: one for each rank, and none that of an input. -/
structure Apart (key : Nat → TurnId) (inputs : List UserInput) : Prop where
  numbered : Numbered key
  inputs : ∀ input ∈ inputs, ∀ rank, 0 < rank → key rank ≠ input.id

omit [StepDrafts D] in
theorem Opened.turn (hopened : Opened inputs before held) (hapart : Apart key inputs) {rank : Nat}
    (hpos : 0 < rank) : held (key rank) = before (key rank) :=
  hopened.apart (key rank) fun input hinput => hapart.inputs input hinput rank hpos

omit [StepDrafts D] in
theorem Opened.called (hopened : Opened inputs before held) (hapart : Apart key inputs)
    (hcalled : CallHeld key past inputs before last) : CallHeld key past inputs held last where
  ranked := hcalled.ranked.congr fun _ hpos => hopened.turn hapart hpos
  begun := by
    intro hpos input hinput
    have hsome := hcalled.begun hpos input hinput
    rw [hopened.kept input.id hsome]
    exact hsome

/-- What an entry leaves of a thread: the opening is stored, and a last turn that was open is failed. -/
inductive EntryLeaves (key : Nat → TurnId) (inputs : List UserInput) (before : Held D) (last : Nat) :
    Held D → Prop
  | stored {held : Held D} (hopened : Opened inputs before held) :
    EntryLeaves key inputs before last held
  | failed {held : Held D} {record next : TurnRecord D} (hpos : 0 < last)
      (hopened : Opened inputs before held) (hopen : held (key last) = some (.Turn record))
      (hstreams : record.status = .Streaming)
      (hended : record.finish .Failed = .ok next) :
      EntryLeaves key inputs before last (update held (key last) (some (.Turn next)))

/-- What an entry has found: the opening is stored, no turn of the call is open, and the turns are told
as the thread holds them. -/
structure Found (key : Nat → TurnId) (inputs : List UserInput) (before : Held D) (last : Nat)
    (entered : Entered C) (held : Held D) : Prop where
  leaves : EntryLeaves key inputs before last held
  inputs : ∀ input ∈ inputs, (held input.id).isSome = true
  turns : entered.turns = ranksOf held key 1 last
  still : 0 < last → ∀ message, held (key last) = some message → message.status ≠ .Streaming
  conversation : ∀ rank, 0 < rank →
    turnOf entered.conversation (key rank) = (held (key rank)).bind Message.turn

theorem EntryLeaves.called (hleaves : EntryLeaves key inputs before last held)
    (hapart : Apart key inputs) (hfailed : past .Failed)
    (hcalled : CallHeld key past inputs before last) : CallHeld key past inputs held last := by
  cases hleaves with
  | stored hopened => exact hopened.called hapart hcalled
  | @failed held record next hpos' hopened hopen hstreams hended =>
    have hbefore := hopened.called hapart hcalled
    refine ⟨hbefore.ranked.replace hopen fun _ => ?_, fun hpos input hinput => ?_⟩
    · show past next.status
      rw [(TurnRecord.finish_ok hended).2.2.1]
      exact hfailed
    · have hsome := hbefore.begun hpos input hinput
      rw [Function.update_of_ne (Ne.symm (hapart.inputs input hinput last hpos'))]
      exact hsome

/-- A thread is read as it stands. -/
theorem readThread_stands (hdocumented : store.Documented threads) {shape : Held D → Prop} :
    Holds (Stands threads thread elsewhere shape)
      (readThread store thread : Lib.Act (Desk σ) (Halt C) (ThreadView C))
      (fun view desk => Stands threads thread elsewhere shape desk ∧
        ∀ id, view.message id = ((threads desk.store).held thread id).map Message.shown ∧
          turnOf view.conversation id = ((threads desk.store).held thread id).bind Message.turn)
      fun _ => Stands threads thread elsewhere shape := by
  unfold readThread
  refine .bind _ hdocumented.read_stands fun found => ?_
  cases found with
  | none => exact .stop fun desk hread => hread.1
  | some view =>
    refine .pure fun desk hread => ⟨hread.1, fun id => ?_⟩
    obtain ⟨kept, hthread, hshown⟩ := hread.2 view rfl
    have hheld : (threads desk.store).held thread = kept.message := by
      funext id
      unfold Threads.held
      rw [hthread]
      rfl
    rw [hheld]
    exact ⟨hshown.message id, hshown.turnOf id⟩

omit [Messages C] [StepDrafts D] in
/-- The turns of the first ranks are told alike where they are held alike. -/
theorem ranksOf_same {count : Nat}
    (hsame : ∀ rank, 0 < rank → rank ≤ count → held (key rank) = before (key rank)) :
    ranksOf held key 1 count = ranksOf before key 1 count := by
  unfold ranksOf Held.status
  refine List.map_congr_left fun rank hrank => ?_
  have hbounds := List.mem_range'_1.mp hrank
  rw [hsame rank (by omega) (by omega)]

/-- What an entry has found where no turn of the call is open. -/
theorem Opened.found (hopened : Opened inputs before held) (hapart : Apart key inputs) {conversation : C}
    (hconversation : ∀ rank, 0 < rank →
      turnOf conversation (key rank) = (before (key rank)).bind Message.turn)
    (hinputs : ∀ input ∈ inputs, (held input.id).isSome = true)
    (hstill : 0 < last → before.status (key last) ≠ .Streaming) :
    Found key inputs before last ⟨thread, conversation, ranksOf before key 1 last⟩ held where
  leaves := .stored hopened
  inputs := hinputs
  turns := (ranksOf_same fun rank hpos _ => hopened.turn hapart hpos).symm
  still := by
    intro hpos message hmessage
    have hstatus := hstill hpos
    rw [hopened.turn hapart hpos] at hmessage
    unfold Held.status at hstatus
    rw [hmessage] at hstatus
    exact hstatus
  conversation := by
    intro rank hpos
    rw [hopened.turn hapart hpos]
    exact hconversation rank hpos

omit [Messages C] [StepDrafts D] in
/-- A turn that is open in a thread whose opening is stored was open before. -/
theorem Opened.streams (hopened : Opened inputs before held) (hapart : Apart key inputs) (hpos : 0 < last)
    (hstreams : before.status (key last) = .Streaming) {record : TurnRecord D}
    (hheld : held (key last) = some (.Turn record)) : record.status = .Streaming := by
  rw [hopened.turn hapart hpos] at hheld
  unfold Held.status at hstreams
  rw [hheld] at hstreams
  exact hstreams

/-- What the entry makes of a last turn that is open: the opening is stored, and the turn is failed. -/
inductive LastFailed (key : Nat → TurnId) (inputs : List UserInput) (before : Held D) (last : Nat) :
    Held D → Prop
  | mk {middle : Held D} {record next : TurnRecord D} (hopened : Opened inputs before middle)
      (hstored : ∀ input ∈ inputs, (middle input.id).isSome = true)
      (hopen : middle (key last) = some (.Turn record)) (hstreams : record.status = .Streaming)
      (hended : record.finish .Failed = .ok next) :
      LastFailed key inputs before last (update middle (key last) (some (.Turn next)))

omit [Messages C] in
theorem LastFailed.leaves (hfailed : LastFailed key inputs before last held) (hpos : 0 < last) :
    EntryLeaves key inputs before last held := by
  cases hfailed with
  | mk hopened hstored hopen hstreams hended => exact .failed hpos hopened hopen hstreams hended

/-- What an entry has found where it has failed the last turn. -/
theorem LastFailed.found {count : Nat} (hfailed : LastFailed key inputs before (count + 1) held)
    (hapart : Apart key inputs) {view : ThreadView C}
    (hview : ∀ id, view.message id = (held id).map Message.shown ∧
      turnOf view.conversation id = (held id).bind Message.turn) :
    Found key inputs before (count + 1) ⟨thread, view.conversation, ranksOf before key 1 count ++
      [(count + 1, key (count + 1),
        ((view.message (key (count + 1))).map ThreadMessage.status).getD .Failed)]⟩ held := by
  have hpos : 0 < count + 1 := Nat.succ_pos count
  cases hfailed with
  | @mk middle record next hopened hstored hopen hstreams hended =>
    have hstatus : next.status = .Failed := (TurnRecord.finish_ok hended).2.2.1
    refine ⟨.failed hpos hopened hopen hstreams hended, fun input hinput => ?_, ?_,
      fun _ message hmessage => ?_,
      fun rank _ => (hview _).2⟩
    · rw [Function.update_of_ne (Ne.symm (hapart.inputs input hinput (count + 1) hpos))]
      exact hstored input hinput
    · have hsame : ∀ rank, 0 < rank → rank ≤ count →
          update middle (key (count + 1)) (some (.Turn next)) (key rank) = before (key rank) := by
        intro rank hrank hle
        rw [Function.update_of_ne fun hkey => ?_]
        · exact hopened.turn hapart hrank
        · have heq := hapart.numbered rank (count + 1) hrank hpos hkey
          omega
      rw [ranksOf_last, ranksOf_same hsame, (hview _).1]
      unfold Held.status
      rw [Function.update_self]
      rfl
    · rw [Function.update_self] at hmessage
      cases hmessage
      show next.status ≠ .Streaming
      rw [hstatus]
      exact fun heq => by cases heq

/-- The last turn, where it is open, is failed, and nothing else changes. -/
theorem failOpen_stands (hdocumented : store.Documented threads) (hapart : Apart key inputs)
    {conversation : C}
    (hconversation : ∀ rank, 0 < rank →
      turnOf conversation (key rank) = (before (key rank)).bind Message.turn)
    (hcalled : CallHeld key past inputs before last) :
    Holds (Stands threads thread elsewhere fun held =>
        Opened inputs before held ∧ ∀ input ∈ inputs, (held input.id).isSome = true)
      (failOpen store thread conversation (ranksOf before key 1 last))
      (fun entered desk => entered.thread = thread ∧
        Stands threads thread elsewhere (Found key inputs before last entered) desk)
      fun _ => Stands threads thread elsewhere (EntryLeaves key inputs before last) := by
  unfold failOpen
  cases last with
  | zero =>
    exact .pure fun desk hstands => ⟨rfl,
      hstands.1.1.found hapart hconversation hstands.1.2 fun hpos => absurd hpos (Nat.lt_irrefl 0),
      hstands.2⟩
  | succ count =>
    have hpos : 0 < count + 1 := Nat.succ_pos count
    rw [ranksOf_last, List.getLast?_concat]
    dsimp only
    split
    · rename_i rank id heq
      have hfound := Option.some.inj heq
      have hstreams : before.status (key (count + 1)) = .Streaming := congrArg (·.2.2) hfound
      obtain rfl : count + 1 = rank := congrArg Prod.fst hfound
      obtain rfl : key (count + 1) = id := congrArg (·.2.1) hfound
      refine .bind (fun _ => Stands threads thread elsewhere (LastFailed key inputs before (count + 1))) ?_ ?_
      · refine hdocumented.write_stands (fun held next hshape hdone => ?_) fun held next hshape hleft => ?_
        · cases hdone with
          | ended hstored htaken =>
            exact .mk hshape.1 hshape.2 hstored (hshape.1.streams hapart hpos hstreams hstored) htaken
        · cases hleft with
          | same => exact .stored hshape.1
          | done hdone =>
            cases hdone with
            | ended hstored htaken =>
              exact .failed hpos hshape.1 hstored
                (hshape.1.streams hapart hpos hstreams hstored) htaken
      · intro _
        refine .bind _ ((readThread_stands hdocumented).imp (fun _ hpre => hpre) (fun _ _ hpost => hpost)
          fun _ desk hexit => ⟨hexit.1.leaves hpos, hexit.2⟩) fun view => ?_
        refine .pure fun desk hread => ⟨rfl, ?_, hread.1.2⟩
        rw [List.dropLast_concat]
        exact hread.1.1.found hapart hread.2
    · rename_i hnot
      rw [← ranksOf_last]
      refine .pure fun desk hstands => ⟨rfl,
        hstands.1.1.found hapart hconversation hstands.1.2 fun _ hstreams => ?_, hstands.2⟩
      exact hnot _ _ (by rw [hstreams])

/-- The thread that a call enters: the one that it is given, or the one of its id source. -/
def Asking.Names (asking : Asking) (trigger : Option InputId) (given : String) (thread : ThreadId) :
    Prop :=
  if given.isEmpty then asking.threadId trigger = thread else thread.text = given

omit [Messages C] [StepDrafts D] in
/-- The search for the turns of a call ends within the messages that the thread shows. -/
theorem heldTurns_all {view : ThreadView C} (hapart : Apart key inputs)
    (hshows : ∀ id, view.message id = (before id).map Message.shown)
    (hcalled : CallHeld key past inputs before last) :
    heldTurns view key (view.messages.length + 1) 1 = some (ranksOf before key 1 last) := by
  have hshown : ∀ rank, 0 < rank → rank ≤ last → key rank ∈ view.messages.map ThreadMessage.id := by
    intro rank hpos hle
    obtain ⟨message, hheld⟩ := hcalled.ranked.some_of_le hpos hle
    have hfound : view.message (key rank) = some message.shown := by
      rw [hshows, hheld]
      rfl
    have hid := List.find?_some hfound
    exact List.mem_map.mpr ⟨message.shown, List.mem_of_find?_eq_some hfound, by simpa using hid⟩
  have hlast := Lib.ranks_le hapart.numbered hshown
  rw [List.length_map] at hlast
  have hfound := heldTurns_some hshows hcalled.ranked (view.messages.length + 1) 1 Nat.one_pos
    (Nat.succ_pos last) (by omega)
  rw [Nat.add_sub_cancel] at hfound
  exact hfound

/-- The entry into a thread, cut anywhere: it ends, and tells the turns of the call as the thread holds
them then. -/
theorem enterThread_stands (hlawful : Messages.Lawful C) (hdocumented : store.Documented threads)
    {asking : Asking} {ids : Option InputId → Nat → TurnId} {given : String}
    (hthread : asking.Names (inputs.getLast?.map UserInput.id) given thread)
    (hapart : Apart (ids (inputs.getLast?.map UserInput.id)) inputs)
    (hcalled : CallHeld (ids (inputs.getLast?.map UserInput.id)) past inputs before last) :
    Holds (Stands threads thread elsewhere fun held => held = before)
      (enterThread store asking ids given inputs)
      (fun entered desk => entered.thread = thread ∧ Stands threads thread elsewhere
        (Found (ids (inputs.getLast?.map UserInput.id)) inputs before last entered) desk)
      fun _ => Stands threads thread elsewhere
        (EntryLeaves (ids (inputs.getLast?.map UserInput.id)) inputs before last) := by
  have hstays : ∀ desk, Stands threads thread elsewhere (fun held => held = before) desk →
      Stands threads thread elsewhere
        (EntryLeaves (ids (inputs.getLast?.map UserInput.id)) inputs before last) desk := by
    rintro desk ⟨hheld, hothers⟩
    exact ⟨hheld ▸ .stored (.refl inputs _), hothers⟩
  have hopens : ∀ held, Opened inputs before held →
      EntryLeaves (ids (inputs.getLast?.map UserInput.id)) inputs before last held :=
    fun held hopened => .stored hopened
  unfold enterThread findThread
  dsimp only
  refine .bind (fun entered desk => entered = thread ∧
    Stands threads thread elsewhere (fun held => held = before) desk) ?_ fun entered => ?_
  · unfold Asking.Names at hthread
    split
    · rename_i hempty
      rw [if_pos hempty] at hthread
      rw [hthread]
      refine .bind (fun _ => Stands threads thread elsewhere fun held => held = before) ?_ fun _ => ?_
      · refine hdocumented.write_stands (fun held next hshape hdone => ?_) fun held next hshape hleft => ?_
        · cases hdone
          exact hshape
        · cases hleft with
          | same => exact hshape ▸ .stored (.refl inputs _)
          | done hdone =>
            cases hdone
            exact hshape ▸ .stored (.refl inputs _)
      · exact .pure fun desk hstands => ⟨rfl, hstands⟩
    · rename_i hgiven
      rw [if_neg hgiven] at hthread
      refine .ofExcept (fun value hvalue desk hstands => ⟨?_, hstands⟩) fun _ _ desk hstands =>
        hstays desk hstands
      unfold ThreadId.new at hvalue
      split at hvalue
      · cases hvalue
        cases thread
        cases hthread
        rfl
      · cases hvalue
  · rintro desk ⟨rfl, hstands⟩
    refine Holds.weaken (Stands threads entered elsewhere fun held => held = before) (· = desk)
      (.bind _ ((readThread_stands hdocumented).imp (fun _ hpre => hpre) (fun _ _ hpost => hpost)
        fun _ desk hexit => hstays desk hexit) fun view => ?_) (fun _ heq => heq ▸ hstands) desk rfl
    intro desk hread
    have hview : ∀ id, view.message id = (before id).map Message.shown ∧
        turnOf view.conversation id = (before id).bind Message.turn := by
      intro id
      have hseen := hread.2 id
      rw [hread.1.1] at hseen
      exact hseen
    have hbegins : Stands threads entered elsewhere (fun held => Opened inputs before held ∧
        ∀ input ∈ ([] : List UserInput), (held input.id).isSome = true) desk :=
      ⟨⟨hread.1.1 ▸ .refl inputs _, fun _ hmem => by cases hmem⟩, hread.1.2⟩
    refine Holds.weaken _ (· = desk) (.bind _
      ((storeInputs_stands hlawful hdocumented (fun id => (hview id).1) inputs
        (fun _ hinput => hinput) [] view.conversation).imp (fun _ hpre => hpre) (fun _ _ hpost => hpost)
        fun _ desk hexit => ⟨hopens _ hexit.1, hexit.2⟩) fun conversation => ?_)
      (fun _ heq => heq ▸ hbegins) desk rfl
    intro desk hstored
    rw [heldTurns_all hapart (fun id => (hview id).1) hcalled]
    exact failOpen_stands hdocumented hapart
      (fun rank _ => (hstored.1 _).trans (hview _).2) hcalled desk hstored.2

end Entries

end LlmGraph.React
