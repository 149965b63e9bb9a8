/- digest: A round of tools: each call of the response gets one result with the content of its own tool,
   in whatever order the tools end, and what a stop leaves is concluded. -/

import Mathlib.Data.List.Perm.Subperm
import LlmGraph.Agentic.Conclude
import LlmGraph.Agentic.Ledger

set_option autoImplicit false
set_option relaxedAutoImplicit false

namespace LlmGraph.Agentic

open Lib (Act)
open Lib.Act (Holds)

variable {C : Type}

/-- The content of a call is that of its own tool, called in some window of moments, or the text of an
error. -/
def Own (tools : ToolSet) (timeout : Duration) (window : Nat → Prop) (call : RuntimeToolCall)
    (content : ToolContent) : Prop :=
  (tools.find call.name = none ∧ content = .errorText (Worker.notHeldText call.name)) ∨
    ∃ tool moment, tools.find call.name = some tool ∧ window moment ∧
      (tool.code moment call.arguments = .Answered content ∨
        tool.code moment call.arguments = .TimedOut ∧
          content = .errorText (Worker.timeoutText call.name timeout))

/-- A call, with the entry that holds its result. -/
structure AnsweredCall where
  call : RuntimeToolCall
  results : RuntimeToolResults

namespace AnsweredCall

def pair (answered : AnsweredCall) : RuntimeToolCall × EntryId := (answered.call, answered.results.id)

def entry (answered : AnsweredCall) : TurnEntry := .RuntimeToolResults answered.results

/-- The entry holds one result, of that call and name, with the content of its own tool. -/
def Rightly (answered : AnsweredCall) (tools : ToolSet) (timeout : Duration)
    (window : Nat → Prop) : Prop :=
  ∃ result content, answered.results.results = [result] ∧ result.call = answered.call.id ∧
    result.name = answered.call.name ∧ result.isError = content.isError ∧
      result.content.map PlainBlock.block = content.content ∧
        Own tools timeout window answered.call content

theorem Rightly.imp {answered : AnsweredCall} {tools : ToolSet} {timeout : Duration}
    {window wider : Nat → Prop} (hright : answered.Rightly tools timeout window)
    (hwider : ∀ moment, window moment → wider moment) : answered.Rightly tools timeout wider := by
  obtain ⟨result, content, hresults, hcall, hname, herror, hblocks, hown⟩ := hright
  refine ⟨result, content, hresults, hcall, hname, herror, hblocks, hown.imp_right ?_⟩
  rintro ⟨tool, moment, hfind, hmoment, hended⟩
  exact ⟨tool, moment, hfind, hwider moment hmoment, hended⟩

end AnsweredCall

variable [Conversation C]

/-- The entries of the AI turn of an identity. -/
def entriesIn (c : C) (turn : TurnId) : List TurnEntry :=
  ((turnOf c turn).bind Turn.asAi).elim [] AITurn.entries

theorem applyEntry_entriesIn (hlawful : Conversation.Lawful C) {c next : C} {target : AiTurnRef}
    {entry : TurnEntry} (happlied : applyEntry c target entry = .ok next) :
    entriesIn next target.id = entriesIn c target.id ++ [entry] := by
  have hturn := applyEntry_turn hlawful happlied
  have hcurrent : (current c target).entries = entriesIn c target.id := by
    unfold current entriesIn
    cases (turnOf c target.id).bind Turn.asAi with
    | none => rfl
    | some ai => rfl
  rw [← hcurrent]
  unfold entriesIn
  rw [hturn]
  rfl

/-- The thread has taken what the copy has taken, but for the last results perhaps. -/
def Behind (target : AiTurnRef) (answered : List AnsweredCall) (thread c : C) : Prop :=
  thread = c ∨ ∃ front last, answered = front ++ [last] ∧
    applyResults thread target last.results = .ok c

/-- The tools of the two are the same, with the time they have, and so are the agents; and no moment is
taken back. -/
structure Equipped (start worker : Worker C) : Prop where
  tools : worker.tools = start.tools
  timeout : worker.toolTimeout = start.toolTimeout
  agents : worker.agents = start.agents
  later : start.moment ≤ worker.moment

/-- The moments from one worker to another. -/
def Between (start worker : Worker C) (moment : Nat) : Prop :=
  start.moment ≤ moment ∧ moment < worker.moment

/-- No result is stored between the two, and no more than these are opened. -/
structure Level (opened : List EntryId) (start worker : Worker C) : Prop where
  conversation : worker.session.conversation = start.session.conversation
  results : ∀ entry ∈ worker.session.results, entry ∈ start.session.results ∨ entry ∈ opened
  host : worker.host = start.host
  equipped : Equipped start worker

/-- So far a round has stored these results, in this order. -/
structure Carried (window : Nat → Prop) (target : AiTurnRef) (answered : List AnsweredCall)
    (start worker : Worker C) : Prop where
  entries : entriesIn worker.session.conversation target.id =
    entriesIn start.session.conversation target.id ++ answered.map AnsweredCall.entry
  distinct : Distinct start.session.conversation → Distinct worker.session.conversation
  rightly : ∀ a ∈ answered, a.Rightly start.tools start.toolTimeout window
  equipped : Equipped start worker

/-- The calls have their results, and none of these is open. -/
def Stored (window : Nat → Prop) (target : AiTurnRef) (calls : List (RuntimeToolCall × EntryId))
    (start worker : Worker C) : Prop :=
  ∃ answered, Carried window target answered start worker ∧
    (answered.map AnsweredCall.pair).Perm calls ∧
    (∀ entry ∈ worker.session.results,
      entry ∈ start.session.results ∧ entry ∉ calls.map Prod.snd) ∧
    (start.host.thread = start.session.conversation →
      worker.host.thread = worker.session.conversation)

/-- Some of the calls have their results. -/
def Cut (window : Nat → Prop) (target : AiTurnRef) (calls : List (RuntimeToolCall × EntryId))
    (start worker : Worker C) : Prop :=
  ∃ answered, Carried window target answered start worker ∧
    (answered.map AnsweredCall.pair).Subperm calls ∧
    (start.host.thread = start.session.conversation →
      Behind target answered worker.host.thread worker.session.conversation ∧
        (Distinct start.session.conversation → Distinct worker.host.thread))

omit [Conversation C] in
theorem Equipped.trans {start middle worker : Worker C} (hfirst : Equipped start middle)
    (hlater : Equipped middle worker) : Equipped start worker :=
  ⟨hlater.tools.trans hfirst.tools, hlater.timeout.trans hfirst.timeout,
    hlater.agents.trans hfirst.agents, hfirst.later.trans hlater.later⟩

namespace Carried

variable {window : Nat → Prop} {target : AiTurnRef} {answered more : List AnsweredCall}
  {start middle worker : Worker C}

theorem of_level {opened : List EntryId} (hlevel : Level opened start worker) :
    Carried window target [] start worker := by
  refine ⟨?_, fun hdistinct => ?_, fun _ hmem => ?_, hlevel.equipped⟩
  · rw [hlevel.conversation, List.map_nil, List.append_nil]
  · rwa [hlevel.conversation]
  · cases hmem

theorem trans (hfirst : Carried window target answered start middle)
    (hlater : Carried window target more middle worker) :
    Carried window target (answered ++ more) start worker := by
  refine ⟨?_, fun hdistinct => hlater.distinct (hfirst.distinct hdistinct), fun a ha => ?_,
    hfirst.equipped.trans hlater.equipped⟩
  · rw [hlater.entries, hfirst.entries, List.map_append, List.append_assoc]
  · rcases List.mem_append.mp ha with ha | ha
    · exact hfirst.rightly a ha
    · have hright := hlater.rightly a ha
      rwa [hfirst.equipped.tools, hfirst.equipped.timeout] at hright

end Carried

namespace Stored

variable {window : Nat → Prop} {target : AiTurnRef} {calls more : List (RuntimeToolCall × EntryId)}
  {start middle worker : Worker C}

theorem of_level (hlevel : Level [] start worker) : Stored window target [] start worker := by
  refine ⟨[], .of_level hlevel, .refl _, fun entry hentry => ⟨?_, List.not_mem_nil⟩, fun hsame => ?_⟩
  · exact (hlevel.results entry hentry).resolve_right List.not_mem_nil
  · rw [hlevel.host, hlevel.conversation]
    exact hsame

theorem append (hfirst : Stored window target calls start middle)
    (hlater : Stored window target more middle worker) :
    Stored window target (calls ++ more) start worker := by
  obtain ⟨answered, hcarried, hperm, hresults, hthread⟩ := hfirst
  obtain ⟨answered', hcarried', hperm', hresults', hthread'⟩ := hlater
  refine ⟨answered ++ answered', hcarried.trans hcarried', ?_, fun entry hentry => ?_,
    fun hsame => hthread' (hthread hsame)⟩
  · rw [List.map_append]
    exact hperm.append hperm'
  · obtain ⟨hmiddle, hnew⟩ := hresults' entry hentry
    obtain ⟨hold, hnone⟩ := hresults entry hmiddle
    rw [List.map_append, List.mem_append]
    exact ⟨hold, fun hmem => hmem.elim hnone hnew⟩

theorem cut (hfirst : Stored window target calls start middle)
    (hlater : Cut window target more middle worker) :
    Cut window target (calls ++ more) start worker := by
  obtain ⟨answered, hcarried, hperm, -, hthread⟩ := hfirst
  obtain ⟨answered', hcarried', hsub, hbehind⟩ := hlater
  refine ⟨answered ++ answered', hcarried.trans hcarried', ?_, fun hsame => ?_⟩
  · rw [List.map_append]
    exact hperm.subperm.append hsub
  · obtain ⟨hlast, hdistinct⟩ := hbehind (hthread hsame)
    refine ⟨hlast.imp_right fun hlast => ?_, fun hstart => hdistinct (hcarried.distinct hstart)⟩
    obtain ⟨front, last, rfl, happlied⟩ := hlast
    exact ⟨answered ++ front, last, (List.append_assoc ..).symm, happlied⟩

theorem perm (hstored : Stored window target calls start worker) (hperm : calls.Perm more) :
    Stored window target more start worker := by
  obtain ⟨answered, hcarried, hpairs, hresults, hthread⟩ := hstored
  refine ⟨answered, hcarried, hpairs.trans hperm, fun entry hentry => ?_, hthread⟩
  obtain ⟨hold, hnone⟩ := hresults entry hentry
  exact ⟨hold, fun hmem => hnone ((hperm.map Prod.snd).mem_iff.mpr hmem)⟩

end Stored

namespace Cut

variable {window : Nat → Prop} {target : AiTurnRef} {calls more : List (RuntimeToolCall × EntryId)}
  {start worker : Worker C}

theorem of_level {opened : List EntryId} (hlevel : Level opened start worker) :
    Cut window target calls start worker := by
  refine ⟨[], .of_level hlevel, List.nil_subperm, fun hsame => ?_⟩
  rw [hlevel.host, hlevel.conversation, hsame]
  exact ⟨.inl rfl, fun hdistinct => hdistinct⟩

theorem subperm (hcut : Cut window target calls start worker) (hsub : calls.Subperm more) :
    Cut window target more start worker := by
  obtain ⟨answered, hcarried, hpairs, hbehind⟩ := hcut
  exact ⟨answered, hcarried, hpairs.trans hsub, hbehind⟩

end Cut

section Results

variable {env : Env} {window : Nat → Prop} {target : AiTurnRef}

omit [Conversation C] in
theorem Level.timeless (opened : List EntryId) (start : Worker C) : Timeless (Level opened start) :=
  fun _ _ hmoment hlevel => ⟨hlevel.conversation, hlevel.results, hlevel.host, hlevel.equipped.tools,
    hlevel.equipped.timeout, hlevel.equipped.agents, hlevel.equipped.later.trans hmoment⟩

omit [Conversation C] in
theorem Level.refl (worker : Worker C) : Level [] worker worker :=
  ⟨rfl, fun _ hentry => .inl hentry, rfl, rfl, rfl, rfl, Nat.le_refl _⟩

theorem Level.leaves (opened : List EntryId) (start : Worker C)
    (calls : List (RuntimeToolCall × EntryId)) :
    Leaves (Level opened start) fun _ => Cut window target calls start :=
  fun _ _ _ hlevel => .of_level hlevel

/-- What a completion of a result comes to: a refusal that changes nothing, an addition that the thread
access does not take, or one that it takes. -/
theorem completeResult_cases {ports : Ports MailItem} {session after : Session C} {host host' : Host C}
    {results : RuntimeToolResults} {outcome : Except SessionError Unit}
    (hcompleted : session.completeResult ports host target results = (outcome, after, host')) :
    ((∃ refusal, outcome = .error refusal) ∧ after.conversation = session.conversation ∧
      host' = host ∧ ∀ entry ∈ after.results, entry ∈ session.results) ∨
    applyResults session.conversation target results = .ok after.conversation ∧
      ((∃ error, outcome = .error error) ∧ host'.thread = host.thread ∨
        outcome = .ok () ∧ (host.thread = session.conversation → host'.thread = after.conversation) ∧
          ∀ entry ∈ after.results, entry ∈ session.results ∧ entry ≠ results.id) := by
  have hfilter : ∀ entry ∈ session.results.filter (· != results.id),
      entry ∈ session.results ∧ entry ≠ results.id := by
    intro entry hentry
    rwa [List.mem_filter, bne_iff_ne] at hentry
  unfold Session.completeResult Session.add at hcompleted
  dsimp only at hcompleted
  cases happlied : applyResults session.conversation target results with
  | error refusal =>
      rw [happlied] at hcompleted
      refine .inl ?_
      cases refusal with
      | Rules | WrongTurn | WrongMailEntry =>
          cases hcompleted
          exact ⟨⟨_, rfl⟩, rfl, rfl, fun entry hentry => (hfilter entry hentry).1⟩
      | Port error =>
          cases hcompleted
          exact ⟨⟨_, rfl⟩, rfl, rfl, fun entry hentry => hentry⟩
  | ok next =>
      rw [happlied] at hcompleted
      dsimp only at hcompleted
      refine .inr ?_
      cases hport : ports.thread host.threadCalls with
      | some error =>
          rw [hport] at hcompleted
          cases hcompleted
          exact ⟨rfl, .inl ⟨⟨_, rfl⟩, rfl⟩⟩
      | none =>
          rw [hport] at hcompleted
          cases hcompleted
          refine ⟨rfl, .inr ⟨rfl, fun hsame => ?_, hfilter⟩⟩
          dsimp only
          rw [hsame, happlied]
          rfl

/-- What the copy and the host are once the session is asked, whether or not it is dropped then. -/
structure Asked (start : Worker C) (conversation : C) (host : Host C) (worker : Worker C) : Prop where
  conversation : worker.session.conversation = conversation
  host : worker.host = host
  equipped : Equipped start worker

omit [Conversation C] in
theorem Asked.timeless (start : Worker C) (conversation : C) (host : Host C) :
    Timeless (Asked start conversation host) :=
  fun _ _ hmoment hasked => ⟨hasked.conversation, hasked.host, hasked.equipped.tools,
    hasked.equipped.timeout, hasked.equipped.agents, hasked.equipped.later.trans hmoment⟩

section Laws

variable (hlawful : Conversation.Lawful C) (hclosable : Conversation.Closable C)
  {start before worker : Worker C} {answered : AnsweredCall} {session : Session C} {host : Host C}
  {outcome : Except SessionError Unit}

include hlawful hclosable in
/-- A result that the copy takes. -/
theorem Asked.carried (hasked : Asked start session.conversation host worker)
    (hright : answered.Rightly start.tools start.toolTimeout window)
    (happlied : applyResults start.session.conversation target answered.results =
      .ok session.conversation) : Carried window target [answered] start worker := by
  rw [← hasked.conversation] at happlied
  refine ⟨applyEntry_entriesIn hlawful happlied, fun hdistinct => ?_, fun a ha => ?_,
    hasked.equipped⟩
  · exact (applyEntry_adds hlawful hclosable hdistinct rfl happlied).distinct
  · rwa [List.mem_singleton.mp ha]

include hlawful hclosable in
theorem Asked.cut (hbefore : Level [] start before)
    (hcompleted : before.session.completeResult env.ports before.host target answered.results =
      (outcome, session, host))
    (hasked : Asked start session.conversation host worker)
    (hright : answered.Rightly start.tools start.toolTimeout window) :
    Cut window target [answered.pair] start worker := by
  rcases completeResult_cases hcompleted with ⟨-, hsame, hhost, -⟩ | ⟨happlied, hthread⟩
  · refine ⟨[], ⟨?_, fun hdistinct => ?_, fun _ hmem => ?_, hasked.equipped⟩, List.nil_subperm,
      fun hsync => ?_⟩
    · rw [hasked.conversation, hsame, hbefore.conversation, List.map_nil, List.append_nil]
    · rwa [hasked.conversation, hsame, hbefore.conversation]
    · cases hmem
    · rw [hasked.conversation, hasked.host, hsame, hhost, hbefore.host, hbefore.conversation, hsync]
      exact ⟨.inl rfl, fun hdistinct => hdistinct⟩
  · rw [hbefore.conversation] at happlied
    have hcarried := hasked.carried hlawful hclosable hright happlied
    refine ⟨[answered], hcarried, .refl _, fun hsync => ?_⟩
    rw [hasked.host, hasked.conversation]
    rcases hthread with ⟨-, hsame⟩ | ⟨-, htaken, -⟩
    · rw [hsame, hbefore.host, hsync]
      exact ⟨.inr ⟨[], answered, rfl, happlied⟩, fun hdistinct => hdistinct⟩
    · have hthread : host.thread = session.conversation := by
        refine htaken ?_
        rw [hbefore.host, hbefore.conversation, hsync]
      refine ⟨.inl hthread, fun hdistinct => ?_⟩
      rw [hthread, ← hasked.conversation]
      exact hcarried.distinct hdistinct

include hlawful hclosable in
theorem Asked.stored (hbefore : Level [] start before)
    (hcompleted : before.session.completeResult env.ports before.host target answered.results =
      (.ok (), session, host))
    (hasked : Asked start session.conversation host worker) (hsession : worker.session = session)
    (hright : answered.Rightly start.tools start.toolTimeout window) :
    Stored window target [answered.pair] start worker := by
  rcases completeResult_cases hcompleted with ⟨⟨_, hrefused⟩, -⟩ | ⟨happlied, hthread⟩
  · cases hrefused
  rcases hthread with ⟨⟨_, herror⟩, -⟩ | ⟨-, htaken, hresults⟩
  · cases herror
  rw [hbefore.conversation] at happlied
  refine ⟨[answered], hasked.carried hlawful hclosable hright happlied, .refl _,
    fun entry hentry => ?_, fun hsync => ?_⟩
  · rw [hsession] at hentry
    obtain ⟨hheld, hother⟩ := hresults entry hentry
    refine ⟨(hbefore.results entry hheld).resolve_right List.not_mem_nil, ?_⟩
    rw [List.map_singleton, List.mem_singleton]
    exact hother
  · rw [hasked.host, hasked.conversation]
    refine htaken ?_
    rw [hbefore.host, hbefore.conversation, hsync]

include hlawful hclosable in
theorem completeResult_stores (answered : AnsweredCall)
    (hright : answered.Rightly start.tools start.toolTimeout window) :
    Holds (Level [] start) (Worker.completeResult env target answered.results : Doing C Unit)
      (fun _ => Stored window target [answered.pair] start)
      fun _ => Cut window target [answered.pair] start := by
  refine .read fun before hbefore => ?_
  rcases hcompleted : before.session.completeResult env.ports before.host target answered.results with
    ⟨outcome, session, host⟩
  have hcut : ∀ worker, Asked start session.conversation host worker →
      Cut window target [answered.pair] start worker :=
    fun _ hasked => hasked.cut hlawful hclosable hbefore hcompleted hright
  refine .bind (fun _ => Asked start session.conversation host) ?_ fun _ => ?_
  · refine .modify fun worker hworker => ?_
    subst hworker
    obtain ⟨htools, htimeout, hagents, hlater⟩ := hbefore.equipped
    exact ⟨rfl, rfl, htools, htimeout, hagents, hlater⟩
  refine .bind (fun _ => Asked start session.conversation host) ?_ fun _ => ?_
  · exact await_holds (.timeless start session.conversation host)
      (fun _ worker _ hasked => hcut worker hasked) env
  refine .bind (fun _ worker => Asked start session.conversation host worker ∧
    worker.session = session) ?_ fun _ => ?_
  · refine .modify fun worker hasked => ⟨⟨rfl, hasked.host, ?_⟩, rfl⟩
    exact ⟨hasked.equipped.tools, hasked.equipped.timeout, hasked.equipped.agents,
      hasked.equipped.later⟩
  refine .ofExcept (fun _ hok worker hasked => ?_) fun _ _ worker hasked => hcut worker hasked.1
  rw [hok] at hcompleted
  exact hasked.1.stored hlawful hclosable hbefore hcompleted hasked.2 hright

/-- A block is made of each part of the content. -/
theorem intoResult_content {content : ToolContent} {ids : List BlockId}
    (hlength : content.content.length ≤ ids.length) (id call : BlockId) (name : ToolName) :
    (content.intoResult id call name ids).content.map PlainBlock.block = content.content := by
  have hreverse : content.content.length ≤ ids.reverse.length := by rwa [List.length_reverse]
  have hsecond : (List.zipWith Prod.mk ids.reverse content.content).map Prod.snd =
      content.content := List.map_snd_zip hreverse
  rw [List.map_zipWith] at hsecond
  unfold ToolContent.intoResult
  rw [List.map_zipWith]
  exact hsecond

include hlawful hclosable in
theorem completeCall_stores (start : Worker C) (entry : EntryId) {call : RuntimeToolCall}
    {content : ToolContent} (hown : Own start.tools start.toolTimeout window call content) :
    Holds (Level [] start)
      (Worker.completeCall env target entry call.id call.name content : Doing C Unit)
      (fun _ => Stored window target [(call, entry)] start)
      fun _ => Cut window target [(call, entry)] start := by
  have htimeless := Level.timeless [] start
  have hleaves : Leaves (Level [] start) fun _ => Cut window target [(call, entry)] start :=
    Level.leaves [] start _
  refine .bind _ (blockIds_holds htimeless hleaves _) fun ids => ?_
  refine .bind _ (answer_holds htimeless hleaves env.blockId) fun id => ?_
  refine .bind _ (ask_holds htimeless env.content) fun made => ?_
  refine .bind _ (value_holds hleaves made) fun _ => ?_
  dsimp only
  split
  · rename_i hshort
    exact .bind (fun _ _ => False) (fault_holds hleaves fun _ hother => by cases hother) fun _ =>
      fun _ hnever => hnever.elim
  · rename_i hlength
    refine .bind _ (ask_holds htimeless env.content) fun taken => ?_
    refine .bind _ (value_holds hleaves taken) fun _ => ?_
    have hcontent := intoResult_content (Nat.le_of_not_lt hlength) id call.id call.name
    exact completeResult_stores hlawful hclosable
      ⟨call, ⟨entry, [content.intoResult id call.id call.name ids]⟩⟩
        ⟨_, content, rfl, rfl, rfl, rfl, hcontent, hown⟩

/-- An answer that is there at once is that of its call: the node holds no such tool. -/
def AtOnce (tools : ToolSet) (due : RuntimeToolCall × EntryId) (answer : Worker.Immediate) : Prop :=
  tools.find due.1.name = none ∧
    answer = ⟨due.2, due.1.id, due.1.name, .errorText (Worker.notHeldText due.1.name)⟩

/-- A call that runs is that call, and comes to what a call of its tool comes to in the window. -/
def Runs (tools : ToolSet) (timeout : Duration) (window : Nat → Prop)
    (due : RuntimeToolCall × EntryId) (finished : Worker.Finished) : Prop :=
  ∃ tool moment, tools.find due.1.name = some tool ∧ window moment ∧
    finished = ⟨due.2, due.1.id, due.1.name, timeout, tool.code moment due.1.arguments⟩

/-- Two parts of a round, one after the other. -/
theorem stores_append {first : Doing C Unit} {next : Doing C Unit}
    {calls more : List (RuntimeToolCall × EntryId)}
    (hfirst : Holds (Level [] start) first (fun _ => Stored window target calls start)
      fun _ => Cut window target calls start)
    (hnext : ∀ middle, Equipped start middle → Holds (Level [] middle) next
      (fun _ => Stored window target more middle) fun _ => Cut window target more middle) :
    Holds (Level [] start) (do first; next) (fun _ => Stored window target (calls ++ more) start)
      fun _ => Cut window target (calls ++ more) start := by
  have hsub : calls.Subperm (calls ++ more) := (List.sublist_append_left calls more).subperm
  refine .bind (fun _ => Stored window target calls start) ?_ fun _ => ?_
  · exact hfirst.imp (fun _ hlevel => hlevel) (fun _ _ hstored => hstored)
      fun _ _ hcut => hcut.subperm hsub
  refine .ghost fun middle hmiddle => ?_
  have hequipped : Equipped start middle := by
    obtain ⟨answered, hcarried, -⟩ := hmiddle
    exact hcarried.equipped
  refine (hnext middle hequipped).imp (fun worker hworker => ?_)
    (fun _ _ hlater => hmiddle.append hlater) fun _ _ hlater => hmiddle.cut hlater
  subst hworker
  exact .refl worker

include hlawful hclosable in
theorem completeCalls_stores {tools : ToolSet} {calls : List (RuntimeToolCall × EntryId)}
    {answers : List Worker.Immediate} (hthere : List.Forall₂ (AtOnce tools) calls answers)
    (start : Worker C) (htools : start.tools = tools) :
    Holds (Level [] start) (Worker.completeCalls env target answers : Doing C Unit)
      (fun _ => Stored window target calls start) fun _ => Cut window target calls start := by
  induction hthere generalizing start with
  | nil => exact .pure fun worker hlevel => .of_level hlevel
  | @cons due answer calls answers hatOnce hrest hind =>
      obtain ⟨hfind, rfl⟩ := hatOnce
      rw [← htools] at hfind
      have hfirst : Holds (Level [] start) (Worker.completeCall env target due.2 due.1.id due.1.name
          (.errorText (Worker.notHeldText due.1.name)) : Doing C Unit)
          (fun _ => Stored window target [due] start) fun _ => Cut window target [due] start :=
        completeCall_stores hlawful hclosable start due.2 (.inl ⟨hfind, rfl⟩)
      exact stores_append hfirst fun middle hequipped =>
        hind middle (hequipped.tools.trans htools)

include hlawful hclosable in
theorem joined_stores (start : Worker C) {due : RuntimeToolCall × EntryId}
    {finished : Worker.Finished} (hruns : Runs start.tools start.toolTimeout window due finished) :
    Holds (Level [] start) (Worker.joined env target finished : Doing C Unit)
      (fun _ => Stored window target [due] start) fun _ => Cut window target [due] start := by
  obtain ⟨call, entry⟩ := due
  obtain ⟨tool, moment, hfind, hmoment, rfl⟩ := hruns
  have htimeless := Level.timeless [] start
  have hleaves : Leaves (Level [] start) fun _ => Cut window target [(call, entry)] start :=
    Level.leaves [] start _
  have hchecked : Holds (Level [] start) (Worker.unlessTriggered env : Doing C Unit)
      (fun _ => Level [] start) fun _ => Cut window target [(call, entry)] start :=
    unlessTriggered_holds htimeless hleaves
  have hfault {fault : Fault} (hother : ∀ failure, fault ≠ .Model failure) :
      Holds (Level [] start) (Worker.fault fault : Doing C Unit)
        (fun _ => Stored window target [(call, entry)] start)
        fun _ => Cut window target [(call, entry)] start :=
    fault_holds hleaves hother
  unfold Worker.joined
  dsimp only
  cases hended : tool.code moment call.arguments with
  | Panicked text => exact hfault fun _ hother => by cases hother
  | Faulted cause => exact .bind _ hchecked fun _ => hfault fun _ hother => by cases hother
  | TimedOut =>
      refine .bind _ hchecked fun _ => ?_
      refine .bind _ (ask_holds htimeless env.content) fun made => ?_
      refine .bind _ (value_holds hleaves made) fun _ => ?_
      exact completeCall_stores hlawful hclosable start entry
        (.inr ⟨tool, moment, hfind, hmoment, .inr ⟨hended, rfl⟩⟩)
  | Answered content =>
      exact .bind _ hchecked fun _ => completeCall_stores hlawful hclosable start entry
        (.inr ⟨tool, moment, hfind, hmoment, .inl hended⟩)

include hlawful hclosable in
/-- The calls that run are joined in any order: each one that is joined is taken out of those due. -/
theorem joinNext_stores {tools : ToolSet} {timeout : Duration} (more : Nat)
    {calls : List (RuntimeToolCall × EntryId)} {running : List Worker.Finished}
    (hruns : List.Forall₂ (Runs tools timeout window) calls running) (hmore : running.length = more)
    (start : Worker C) (htools : start.tools = tools) (htimeout : start.toolTimeout = timeout) :
    Holds (Level [] start) (Worker.joinNext env target more running : Doing C Unit)
      (fun _ => Stored window target calls start) fun _ => Cut window target calls start := by
  have hleaves : Leaves (Level [] start) fun _ => Cut window target calls start :=
    Level.leaves [] start _
  induction more generalizing calls running start with
  | zero =>
      obtain rfl := List.length_eq_zero_iff.mp hmore
      cases hruns
      exact .pure fun worker hlevel => .of_level hlevel
  | succ more hind =>
      refine .bind _ (await_holds (Level.timeless [] start) hleaves env) fun _ => ?_
      refine .bind _ (ask_holds (Level.timeless [] start) env.joined) fun asked => ?_
      dsimp only
      have hplace : asked % running.length < running.length := Nat.mod_lt _ (by omega)
      rw [List.getElem?_eq_getElem hplace]
      generalize asked % running.length = place at hplace
      have hlength := hruns.length_eq
      have hdue : place < calls.length := hlength ▸ hplace
      have hrest : List.Forall₂ (Runs tools timeout window) (calls.eraseIdx place)
          (running.eraseIdx place) := by
        rw [List.eraseIdx_eq_take_drop_succ, List.eraseIdx_eq_take_drop_succ]
        exact List.rel_append (List.forall₂_take _ hruns) (List.forall₂_drop _ hruns)
      have hone : Runs start.tools start.toolTimeout window calls[place] running[place] := by
        rw [htools, htimeout]
        exact hruns.get hdue hplace
      have hperm : ([calls[place]] ++ calls.eraseIdx place).Perm calls :=
        List.getElem_cons_eraseIdx_perm hdue
      refine (stores_append (joined_stores hlawful hclosable start hone) fun middle hequipped =>
        hind hrest ?_ middle (hequipped.tools.trans htools) (hequipped.timeout.trans htimeout)
          (Level.leaves [] middle _)).imp
        (fun _ hlevel => hlevel) (fun _ _ hstored => hstored.perm hperm)
        fun _ _ hcut => hcut.subperm hperm.subperm
      rw [List.length_eraseIdx_of_lt hplace, hmore, Nat.add_sub_cancel]

end Laws

/-- The entries of the results are opened, one for each call. -/
theorem openResults_opens {calls : List (RuntimeToolCall × EntryId)} (start : Worker C)
    (pending : List RuntimeToolCall) (before : List EntryId) :
    Holds (Level before start) (Worker.openResults env pending : Doing C _)
      (fun opened worker => opened.map Prod.fst = pending ∧
        Level (before ++ opened.map Prod.snd) start worker)
      fun _ => Cut window target calls start := by
  induction pending generalizing before with
  | nil =>
      refine .pure fun worker hlevel => ⟨rfl, ?_⟩
      rwa [List.map_nil, List.append_nil]
  | cons call rest hind =>
      have htimeless := Level.timeless before start
      have hleaves : Leaves (Level before start) fun _ => Cut window target calls start :=
        Level.leaves before start calls
      refine .bind _ (answer_holds htimeless hleaves env.entryId) fun entry => ?_
      refine .bind (fun _ => Level (before ++ [entry]) start) ?_ fun _ => ?_
      · refine .bind _ (await_holds htimeless hleaves env) fun _ => ?_
        refine .bind _ (ask_holds htimeless env.openAnswer) fun answer => ?_
        cases answer with
        | some error => exact fault_holds hleaves fun _ hother => by cases hother
        | none =>
            refine .modify fun worker hlevel => ⟨hlevel.conversation, fun listed hlisted => ?_,
              hlevel.host, hlevel.equipped.tools, hlevel.equipped.timeout, hlevel.equipped.agents,
              hlevel.equipped.later⟩
            have hold : listed ∈ worker.session.results →
                listed ∈ start.session.results ∨ listed ∈ before ++ [entry] := fun hheld =>
              (hlevel.results listed hheld).imp_right (List.mem_append_left _)
            change listed ∈ Session.track worker.session.results entry at hlisted
            unfold Session.track at hlisted
            split at hlisted
            · exact hold hlisted
            · rcases List.mem_append.mp hlisted with hheld | hnew
              · exact hold hheld
              · exact .inr (List.mem_append_right _ hnew)
      · refine .bind _ (hind (before ++ [entry])) fun opened => .pure fun worker hlast => ?_
        obtain ⟨hcalls, hlevel⟩ := hlast
        refine ⟨congrArg (call :: ·) hcalls, ?_⟩
        rwa [List.append_assoc] at hlevel

/-- Each call is answered at once, or runs from a moment of the round on. -/
theorem startCalls_starts {calls : List (RuntimeToolCall × EntryId)} (start : Worker C)
    (opened : List (RuntimeToolCall × EntryId)) (entries : List EntryId) :
    Holds (Level entries start) (Worker.startCalls env opened : Doing C _)
      (fun started worker => Level entries start worker ∧ ∃ now later, (now ++ later).Perm opened ∧
        List.Forall₂ (AtOnce start.tools) now started.1 ∧
          List.Forall₂ (Runs start.tools start.toolTimeout (Between start worker)) later started.2)
      fun _ => Cut window target calls start := by
  -- The moment of a call that runs lies before those of the next, so the floor moves with the calls.
  suffices hfloor : ∀ floor, Holds (fun worker => Level entries start worker ∧ floor ≤ worker.moment)
      (Worker.startCalls env opened : Doing C _)
      (fun started worker => (Level entries start worker ∧ floor ≤ worker.moment) ∧
        ∃ now later, (now ++ later).Perm opened ∧ List.Forall₂ (AtOnce start.tools) now started.1 ∧
          List.Forall₂ (Runs start.tools start.toolTimeout (Between start worker)) later started.2)
      fun _ => Cut window target calls start from
    (hfloor 0).imp (fun _ hlevel => ⟨hlevel, Nat.zero_le _⟩) (fun _ _ hlast => ⟨hlast.1.1, hlast.2⟩)
      fun _ _ hcut => hcut
  induction opened with
  | nil => exact fun floor => .pure fun worker hlevel => ⟨hlevel, [], [], .refl _, .nil, .nil⟩
  | cons due rest hind =>
      intro floor
      obtain ⟨call, entry⟩ := due
      have htimeless : Timeless fun worker : Worker C =>
          Level entries start worker ∧ floor ≤ worker.moment := fun worker moment hmoment hhere =>
        ⟨Level.timeless entries start worker moment hmoment hhere.1, hhere.2.trans hmoment⟩
      have hleaves : Leaves (fun worker => Level entries start worker ∧ floor ≤ worker.moment)
          fun _ => Cut window target calls start := fun reason worker hfatal hhere =>
        Level.leaves entries start calls reason worker hfatal hhere.1
      refine .read fun before hbefore => ?_
      refine .weaken (fun worker => Level entries start worker ∧ floor ≤ worker.moment) _ ?_
        fun worker hworker => hworker ▸ hbefore
      rw [hbefore.1.equipped.tools]
      cases hfind : start.tools.find call.name with
      | none =>
          refine .bind _ (ask_holds htimeless env.content) fun content => ?_
          refine .bind _ (value_holds hleaves content) fun _ => ?_
          refine .bind _ (hind floor) fun started => .pure fun worker hlast => ?_
          obtain ⟨hlevel, now, later, hperm, hnow, hlater⟩ := hlast
          exact ⟨hlevel, (call, entry) :: now, later, hperm.cons _, .cons ⟨hfind, rfl⟩ hnow, hlater⟩
      | some tool =>
          refine .read fun seen hseen => ?_
          rw [hseen.1.equipped.timeout]
          refine .bind (fun ended worker => Level entries start worker ∧ ended =
            tool.code seen.moment call.arguments ∧ seen.moment < worker.moment) ?_ fun ended => ?_
          · rintro worker rfl
            exact .inl ⟨_, _, rfl, Level.timeless entries start worker _ (Nat.le_succ _) hseen.1, rfl,
              Nat.lt_succ_self _⟩
          refine .bind (fun _ worker => Level entries start worker ∧ ended =
            tool.code seen.moment call.arguments ∧ seen.moment < worker.moment) ?_ fun _ => ?_
          · exact .modify fun worker hlevel => ⟨⟨hlevel.1.conversation, hlevel.1.results,
              hlevel.1.host, hlevel.1.equipped.tools, hlevel.1.equipped.timeout,
              hlevel.1.equipped.agents, hlevel.1.equipped.later⟩, hlevel.2⟩
          refine .ghost fun begun hbegun => ?_
          obtain ⟨hlevel, rfl, hmoment⟩ := hbegun
          have hfurther := hind (max floor (seen.moment + 1))
          have hhere : floor ≤ begun.moment := hseen.2.trans hmoment.le
          refine .weaken (fun worker => Level entries start worker ∧
            max floor (seen.moment + 1) ≤ worker.moment) _ ?_ fun worker hworker =>
              hworker ▸ ⟨hlevel, Nat.max_le.mpr ⟨hhere, hmoment⟩⟩
          refine .bind _ hfurther fun started => .pure fun worker hlast => ?_
          obtain ⟨⟨hlevel, hlast⟩, now, later, hperm, hnow, hlater⟩ := hlast
          obtain ⟨hfloor, hpassed⟩ := Nat.max_le.mp hlast
          refine ⟨⟨hlevel, hfloor⟩, now, (call, entry) :: later, ?_, hnow,
            .cons ⟨tool, seen.moment, hfind, ⟨hseen.1.equipped.later, hpassed⟩, rfl⟩ hlater⟩
          exact List.perm_middle.trans (hperm.cons _)

end Results

namespace Behind

variable {target : AiTurnRef} {answered : List AnsweredCall} {thread c : C}

theorem mirrors (hlawful : Conversation.Lawful C) (hclosable : Conversation.Closable C)
    (hbehind : Behind target answered thread c) (hdistinct : Distinct thread) : Mirrors thread c := by
  rcases hbehind with rfl | ⟨front, last, -, happlied⟩
  · exact .refl hdistinct
  · exact (Mirrors.refl hdistinct).of_adds (applyEntry_adds hlawful hclosable hdistinct rfl happlied)

/-- The entries of the turn in the thread: those of the copy, but for the last one perhaps. -/
theorem told (hlawful : Conversation.Lawful C) (hbehind : Behind target answered thread c)
    {entries : List TurnEntry}
    (hentries : entriesIn c target.id = entries ++ answered.map AnsweredCall.entry) :
    ∃ told, told <+: answered ∧
      entriesIn thread target.id = entries ++ told.map AnsweredCall.entry := by
  rcases hbehind with rfl | ⟨front, last, rfl, happlied⟩
  · exact ⟨answered, List.prefix_refl _, hentries⟩
  · refine ⟨front, List.prefix_append front [last], ?_⟩
    have hlast := applyEntry_entriesIn hlawful happlied
    rw [hentries, List.map_append, ← List.append_assoc] at hlast
    exact (List.append_cancel_right hlast).symm

end Behind

/-- Calls of a round up to a worker are calls up to any later one. -/
theorem Carried.until {target : AiTurnRef} {answered : List AnsweredCall}
    {start middle worker : Worker C} (hlater : Equipped middle worker)
    (hcarried : Carried (Between start middle) target answered start worker) :
    Carried (Between start worker) target answered start worker :=
  ⟨hcarried.entries, hcarried.distinct, fun a ha => (hcarried.rightly a ha).imp fun _ hmoment =>
    ⟨hmoment.1, hmoment.2.trans_le hlater.later⟩, hcarried.equipped⟩

/-- What a round has come to when it ends: each call of the response is answered, and nothing that was
opened for it is open. -/
def RoundEnded (turn : TurnId) (calls : List RuntimeToolCall) (start worker : Worker C) : Prop :=
  ∃ target answered, target.id = turn ∧
    Carried (Between start worker) target answered start worker ∧
    (answered.map AnsweredCall.call).Perm calls ∧
    (∀ entry ∈ worker.session.results, entry ∈ start.session.results ∧
      entry ∉ answered.map fun a => a.results.id) ∧
    (start.host.thread = start.session.conversation →
      worker.host.thread = worker.session.conversation)

/-- What a round has come to when it is stopped. -/
def RoundStopped (turn : TurnId) (calls : List RuntimeToolCall) (start worker : Worker C) : Prop :=
  ∃ target answered, target.id = turn ∧
    Carried (Between start worker) target answered start worker ∧
    (answered.map AnsweredCall.call).Subperm calls ∧
    (start.host.thread = start.session.conversation →
      Behind target answered worker.host.thread worker.session.conversation ∧
        (Distinct start.session.conversation → Distinct worker.host.thread))

theorem AnsweredCall.map_pair (answered : List AnsweredCall) :
    (answered.map AnsweredCall.pair).map Prod.fst = answered.map AnsweredCall.call := by
  rw [List.map_map]
  rfl

/-- A stop after the opening of results, of those that are opened or of some that are not. -/
theorem Cut.round {turn : TurnId} {target : AiTurnRef} (htarget : target.id = turn)
    {opened : List (RuntimeToolCall × EntryId)} {entries : List EntryId}
    {start middle worker : Worker C}
    (hlevel : Level entries start middle)
    (hcut : Cut (Between start middle) target opened middle worker) :
    RoundStopped turn (opened.map Prod.fst) start worker := by
  obtain ⟨answered, hcarried, ⟨pairs, hperm, hsub⟩, hbehind⟩ := hcut
  refine ⟨target, answered, htarget, Carried.until hcarried.equipped
    ((Carried.of_level hlevel).trans hcarried), ?_, fun hsync => ?_⟩
  · rw [← AnsweredCall.map_pair]
    exact ⟨pairs.map Prod.fst, hperm.map Prod.fst, hsub.map Prod.fst⟩
  · rw [hlevel.host, hlevel.conversation] at hbehind
    exact hbehind hsync

theorem Stored.round {turn : TurnId} {target : AiTurnRef} (htarget : target.id = turn)
    {opened : List (RuntimeToolCall × EntryId)} {start middle worker : Worker C}
    (hlevel : Level (opened.map Prod.snd) start middle)
    (hstored : Stored (Between start middle) target opened middle worker) :
    RoundEnded turn (opened.map Prod.fst) start worker := by
  obtain ⟨answered, hcarried, hperm, hresults, hthread⟩ := hstored
  refine ⟨target, answered, htarget, Carried.until hcarried.equipped
    ((Carried.of_level hlevel).trans hcarried), ?_, fun entry hentry => ?_, fun hsync => ?_⟩
  · rw [← AnsweredCall.map_pair]
    exact hperm.map Prod.fst
  · obtain ⟨hheld, hnew⟩ := hresults entry hentry
    refine ⟨(hlevel.results entry hheld).resolve_right hnew, fun hmem => hnew ?_⟩
    have hentries : (answered.map AnsweredCall.pair).map Prod.snd =
        answered.map fun a => a.results.id := by
      rw [List.map_map]
      rfl
    rw [← hentries] at hmem
    exact (hperm.map Prod.snd).mem_iff.mp hmem
  · rw [hlevel.host, hlevel.conversation] at hthread
    exact hthread hsync

theorem toolRound_ends (hlawful : Conversation.Lawful C) (hclosable : Conversation.Closable C)
    (env : Env) (turn : TurnId) (response : ModelResponse) (start : Worker C) :
    Holds (fun worker => worker = start) (Worker.toolRound env turn response)
      (fun _ => RoundEnded turn response.runtimeCalls start)
      fun _ => RoundStopped turn response.runtimeCalls start := by
  obtain ⟨unopened, hunopened⟩ : ∃ unopened : List (RuntimeToolCall × EntryId),
      unopened.map Prod.fst = response.runtimeCalls := by
    refine ⟨response.runtimeCalls.map fun call => (call, 0), ?_⟩
    rw [List.map_map]
    exact List.map_id _
  have hearly (target : AiTurnRef) (htarget : target.id = turn) (worker : Worker C)
      (hcut : Cut (Between start start) target unopened start worker) :
      RoundStopped turn response.runtimeCalls start worker := by
    rw [← hunopened]
    exact hcut.round htarget (.refl start)
  refine .weaken (Level [] start) _ ?_ fun worker hworker => hworker ▸ .refl start
  have hleaves : Leaves (Level [] start) fun _ =>
      RoundStopped turn response.runtimeCalls start := fun _ worker _ hlevel =>
    hearly ⟨turn, start.agent, ""⟩ rfl worker (.of_level hlevel)
  refine .bind _ (turnRef_holds hleaves turn) fun target => ?_
  refine .ghost fun seen hseen => ?_
  obtain ⟨htarget, -, -, hlevel⟩ := hseen
  refine .weaken (Level [] start) _ ?_ fun worker hworker => hworker ▸ hlevel
  refine .bind _ ((openResults_opens start response.runtimeCalls []).imp (fun _ hpre => hpre)
    (fun _ _ hpost => hpost) fun _ worker => hearly target htarget worker) fun opened => ?_
  refine .ghost fun begun hbegun => ?_
  obtain ⟨hcalls, hopened⟩ := hbegun
  rw [List.nil_append] at hopened
  refine .weaken (Level (opened.map Prod.snd) start) _ ?_ fun worker hworker => hworker ▸ hopened
  refine .bind _ ((startCalls_starts start opened _).imp (fun _ hpre => hpre)
    (fun _ _ hpost => hpost) fun _ worker => hearly target htarget worker) fun started => ?_
  refine .ghost fun middle hmiddle => ?_
  obtain ⟨hmiddle, now, later, hperm, hnow, hlater⟩ := hmiddle
  have hstores : Holds (Level [] middle)
      (do
        Worker.completeCalls env target started.1
        Worker.joinNext env target started.2.length started.2 : Doing C Unit)
      (fun _ => Stored (Between start middle) target (now ++ later) middle)
      fun _ => Cut (Between start middle) target (now ++ later) middle :=
    stores_append
      (completeCalls_stores hlawful hclosable hnow middle hmiddle.equipped.tools)
      fun last hequipped => joinNext_stores hlawful hclosable _ hlater rfl last
        (hequipped.tools.trans hmiddle.equipped.tools)
        (hequipped.timeout.trans hmiddle.equipped.timeout)
  refine hstores.imp (fun worker hworker => hworker ▸ .refl middle) (fun _ worker hstored => ?_)
    fun _ worker hcut => ?_
  · rw [← hcalls]
    exact (hstored.perm hperm).round htarget hmiddle
  · rw [← hcalls]
    exact (hcut.subperm hperm.subperm).round htarget hmiddle

/-- A round that ends well has stored one result for each call, with the content of its own tool, called
at a moment of the round, and has left none open.  One that is stopped has stored some of these, and its
conclusion leaves no object of the session open and no turn of the agents. -/
theorem tool_round (hlawful : Conversation.Lawful C) (hclosable : Conversation.Closable C) (env : Env)
    (turn : TurnId) (response : ModelResponse) {start : Worker C}
    (hdistinct : Distinct start.session.conversation) :
    (Worker.toolRound env turn response start).1 ≠ .spent ∧
    (∀ after, Worker.toolRound env turn response start = (.done (), after) →
      ∃ answered : List AnsweredCall, (answered.map AnsweredCall.call).Perm response.runtimeCalls ∧
        (∀ a ∈ answered, a.Rightly start.tools start.toolTimeout (Between start after)) ∧
        entriesIn after.session.conversation turn =
          entriesIn start.session.conversation turn ++ answered.map AnsweredCall.entry ∧
        (start.host.thread = start.session.conversation →
          after.host.thread = after.session.conversation) ∧
        ∀ entry ∈ after.session.results, entry ∈ start.session.results ∧
          ∀ a ∈ answered, a.results.id ≠ entry) ∧
    ∀ reason after, Worker.toolRound env turn response start = (.stop reason, after) →
      (∃ answered : List AnsweredCall, (answered.map AnsweredCall.call).Subperm response.runtimeCalls ∧
        (∀ a ∈ answered, a.Rightly start.tools start.toolTimeout (Between start after)) ∧
        entriesIn after.session.conversation turn =
          entriesIn start.session.conversation turn ++ answered.map AnsweredCall.entry ∧
        (start.host.thread = start.session.conversation → ∃ told : List AnsweredCall, told <+: answered ∧
          entriesIn after.host.thread turn =
            entriesIn start.host.thread turn ++ told.map AnsweredCall.entry)) ∧
      (Answering env after → env.NamesApart → env.detailTaken "the instance failed" = true →
        ∀ (α : Type) (raced : Raced α), raced.Stopped →
          ∃ event last, Worker.conclude env raced after = (.done (some event), last) ∧
            last.session.openObjects = 0 ∧
            (∀ agent ∈ start.agents, last.session.openAiTurn agent = none) ∧
            (start.host.thread = start.session.conversation →
              ∀ ai, StillOpen last.host.thread ai → ai.agent ∉ start.agents)) := by
  have hholds := toolRound_ends hlawful hclosable env turn response start start rfl
  refine ⟨?_, fun after hround => ?_, fun reason after hround => ?_⟩
  · rcases hholds with ⟨_, _, hround, -⟩ | ⟨_, _, hround, -⟩
    · rw [hround]
      exact fun hspent => by cases hspent
    · rw [hround]
      exact fun hspent => by cases hspent
  · rw [hround] at hholds
    rcases hholds with ⟨_, _, hsame, hended⟩ | ⟨_, _, hsame, -⟩
    · cases hsame
      obtain ⟨target, answered, rfl, hcarried, hperm, hresults, hthread⟩ := hended
      refine ⟨answered, hperm, hcarried.rightly, hcarried.entries, hthread, fun entry hentry => ?_⟩
      obtain ⟨hheld, hnew⟩ := hresults entry hentry
      exact ⟨hheld, fun a ha hid => hnew (hid ▸ List.mem_map_of_mem ha)⟩
    · cases hsame
  · rw [hround] at hholds
    rcases hholds with ⟨_, _, hsame, -⟩ | ⟨_, _, hsame, hstopped⟩
    · cases hsame
    cases hsame
    obtain ⟨target, answered, rfl, hcarried, hsub, hbehind⟩ := hstopped
    refine ⟨⟨answered, hsub, hcarried.rightly, hcarried.entries, fun hsync => ?_⟩,
      fun hanswering hapart htaken α raced hraced => ?_⟩
    · rw [hsync]
      exact (hbehind hsync).1.told hlawful hcarried.entries
    · have hready : CanClose env after := ⟨hcarried.distinct hdistinct, hanswering⟩
      rcases conclude_surely hlawful hclosable hapart htaken hraced hready after rfl with
        ⟨event, last, hconclude, hsome, hconcluded⟩ | ⟨_, _, _, hnever⟩
      · obtain ⟨event, rfl⟩ := Option.isSome_iff_exists.mp hsome
        refine ⟨event, last, hconclude, hconcluded.objects, ?_, fun hsync => ?_⟩
        · rw [← hcarried.equipped.agents]
          exact hconcluded.copy
        · rw [← hcarried.equipped.agents]
          obtain ⟨hlast, hthread⟩ := hbehind hsync
          exact hconcluded.thread (hlast.mirrors hlawful hclosable (hthread hdistinct))
      · exact hnever.elim

section Example

/-- The tool of each name answers, is too slow or faults, and the last call that runs ends first. -/
private def threeTools : ToolSet :=
  ⟨[⟨"echo", fun _ text => .Answered ⟨[.Text text], false⟩⟩, ⟨"sleep", fun _ _ => .TimedOut⟩,
    ⟨"break", fun _ _ => .Faulted "broken"⟩], by decide⟩

private def lastFirst : Env := { Env.calm fun _ _ _ => none with joined := fun _ => 1 }

private def roundTurn (calls : List RuntimeToolCall) : Ledger :=
  ⟨[.AITurn ⟨0, 1, "author", [.ModelResponse ⟨7, calls, .Finished⟩]⟩]⟩

private def roundWorker (calls : List RuntimeToolCall) : Worker Ledger where
  session := .start (roundTurn calls)
  host := ⟨roundTurn calls, [], 0, 0, 0⟩
  hasInbox := false
  agent := 1
  agents := [1]
  author := some "author"
  shaped := false
  tools := threeTools
  modelTimeout := 60000000000
  toolTimeout := 60000000000
  queue := []
  reading := false
  steps := .new ⟨7, Nat.succ_pos 6, by decide⟩
  counters := .zero
  moment := 10
  log := []

private def goodCalls : List RuntimeToolCall :=
  [⟨100, "none", ""⟩, ⟨101, "echo", "hi"⟩, ⟨102, "sleep", ""⟩]

private def badCalls : List RuntimeToolCall := [⟨100, "break", ""⟩, ⟨101, "echo", "hi"⟩]

private def roundOf (calls : List RuntimeToolCall) :=
  Worker.toolRound lastFirst 0 ⟨7, calls, .Finished⟩ (roundWorker calls)

private theorem roundTurn_distinct (calls : List RuntimeToolCall) :
    Distinct (roundWorker calls).session.conversation := List.nodup_singleton 0

/-- A call of no tool, one that answers and one that is too slow are answered, whichever ends first;
and the call that faults leaves nothing open. -/
theorem tool_round_orders :
    (∃ answered : List AnsweredCall, (answered.map AnsweredCall.call).Perm goodCalls ∧
      entriesIn (roundOf goodCalls).2.session.conversation 0 =
        .ModelResponse ⟨7, goodCalls, .Finished⟩ :: answered.map AnsweredCall.entry) ∧
    ∃ event last, Worker.conclude lastFirst (.Done (.error (.Fault (.Tool "broken"))) : Raced Unit)
        (roundOf badCalls).2 = (.done (some event), last) ∧
      last.session.openObjects = 0 ∧ last.session.openAiTurn 1 = none := by
  constructor
  · have hdone : (roundOf goodCalls).1 = .done () := by decide +kernel
    have hround : Worker.toolRound lastFirst 0 ⟨7, goodCalls, .Finished⟩ (roundWorker goodCalls) =
        (.done (), (roundOf goodCalls).2) := by
      rw [← hdone, roundOf]
    obtain ⟨answered, hperm, -, hentries, -⟩ := (tool_round Ledger.lawful Ledger.closable lastFirst 0
      ⟨7, goodCalls, .Finished⟩ (roundTurn_distinct goodCalls)).2.1 _ hround
    exact ⟨answered, hperm, hentries⟩
  · have hstop : (roundOf badCalls).1 = .stop (.Fault (.Tool "broken")) := by decide +kernel
    have hround : Worker.toolRound lastFirst 0 ⟨7, badCalls, .Finished⟩ (roundWorker badCalls) =
        (.stop (.Fault (.Tool "broken")), (roundOf badCalls).2) := by
      rw [← hstop, roundOf]
    have hheld : ∀ id ∈ entryIds (roundOf badCalls).2.session.conversation,
        id < (roundOf badCalls).2.moment := by
      decide +kernel
    have hanswering : Answering lastFirst (roundOf badCalls).2 :=
      ⟨fun _ _ => rfl, fun moment hmoment => ⟨moment, rfl, fun hid =>
        Nat.not_lt_of_le hmoment (hheld moment hid)⟩⟩
    have hapart : lastFirst.NamesApart := by
      intro one other id hone hother
      cases hone
      cases hother
      rfl
    obtain ⟨event, last, hconclude, hobjects, hcopy, -⟩ := ((tool_round Ledger.lawful Ledger.closable
      lastFirst 0 ⟨7, badCalls, .Finished⟩ (roundTurn_distinct badCalls)).2.2 _ _ hround).2
        hanswering hapart (by decide) Unit (.Done (.error (.Fault (.Tool "broken")))) trivial
    exact ⟨event, last, hconclude, hobjects, hcopy 1 List.mem_cons_self⟩

end Example

end LlmGraph.Agentic
