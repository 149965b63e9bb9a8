/- digest: Reading the inbox page by page into the local queue: every read of the in-memory inbox ends,
   misses nothing that stays unread, and adds each item once; a read that fails keeps what it took. -/

import LlmGraph.Agentic.Inbox

set_option autoImplicit false
set_option relaxedAutoImplicit false

namespace LlmGraph.Agentic

namespace Queue

/-- How many of the pushes of a page are taken. -/
def pushed (queue : Queue) : List InboxItem → Nat
  | [] => 0
  | item :: rest => (if (queue.push item).1 then 1 else 0) + (queue.push item).2.pushed rest

/-- What is new behind the items held, of those that were pushed. -/
structure Took (queue items new : List InboxItem) : Prop where
  sublist : new.Sublist items
  distinct : (new.map InboxItem.id).Nodup
  fresh : ∀ item ∈ new, item.id ∉ queue.map InboxItem.id
  every : ∀ item ∈ items, item.id ∈ (queue ++ new).map InboxItem.id

variable {queue : Queue} {item : InboxItem}

private theorem push_held (hheld : item.id ∈ queue.map InboxItem.id) :
    queue.push item = (false, queue) := by
  obtain ⟨held, hmem, hsame⟩ := List.mem_map.mp hheld
  exact if_pos (List.any_eq_true.mpr ⟨held, hmem, by simpa using hsame⟩)

private theorem push_new (hnew : item.id ∉ queue.map InboxItem.id) :
    queue.push item = (true, queue ++ [item]) := by
  refine if_neg fun hany => hnew ?_
  obtain ⟨held, hmem, hsame⟩ := List.any_eq_true.mp hany
  exact List.mem_map.mpr ⟨held, hmem, by simpa using hsame⟩

theorem pushAll_append (queue : Queue) (first later : List InboxItem) :
    queue.pushAll (first ++ later) = (queue.pushAll first).pushAll later := List.foldl_append

/-- The queue grows by the pushes that are taken. -/
theorem length_pushAll (queue : Queue) (items : List InboxItem) :
    (queue.pushAll items).length = queue.length + queue.pushed items := by
  induction items generalizing queue with
  | nil => rfl
  | cons item rest hind =>
      have hlater : (queue.pushAll (item :: rest)).length = _ := hind (queue.push item).2
      rw [hlater, pushed]
      by_cases hheld : item.id ∈ queue.map InboxItem.id
      · rw [push_held hheld]
        simp
      · rw [push_new hheld]
        simp [Nat.add_assoc]

private theorem pushed_append (queue : Queue) (first later : List InboxItem) :
    queue.pushed (first ++ later) = queue.pushed first + (queue.pushAll first).pushed later := by
  have hwhole := length_pushAll queue (first ++ later)
  have hfirst := length_pushAll queue first
  have hlater := length_pushAll (queue.pushAll first) later
  rw [pushAll_append] at hwhole
  omega

theorem pushAll_took (queue : Queue) (items : List InboxItem) :
    ∃ new, queue.pushAll items = queue ++ new ∧ Took queue items new := by
  induction items generalizing queue with
  | nil =>
      exact ⟨[], (List.append_nil queue).symm, List.Sublist.refl _, List.nodup_nil,
        fun _ hmem => (by cases hmem), fun _ hmem => (by cases hmem)⟩
  | cons item rest hind =>
      by_cases hheld : item.id ∈ queue.map InboxItem.id
      · obtain ⟨new, hfilled, htook⟩ := hind queue
        refine ⟨new, ?_, htook.sublist.cons item, htook.distinct, htook.fresh, ?_⟩
        · rw [← hfilled, pushAll, List.foldl_cons, push_held hheld]
          rfl
        · intro other hother
          rcases List.mem_cons.mp hother with rfl | hlater
          · rw [List.map_append]
            exact List.mem_append_left _ hheld
          · exact htook.every other hlater
      · obtain ⟨new, hfilled, htook⟩ := hind (queue ++ [item])
        have hsplit : queue ++ [item] ++ new = queue ++ item :: new := by simp
        refine ⟨item :: new, ?_, htook.sublist.cons_cons item, ?_, ?_, ?_⟩
        · rw [← hsplit, ← hfilled, pushAll, List.foldl_cons, push_new hheld]
          rfl
        · refine List.nodup_cons.mpr ⟨fun hmem => ?_, htook.distinct⟩
          obtain ⟨other, hother, hsame⟩ := List.mem_map.mp hmem
          exact htook.fresh other hother (by simp [hsame])
        · intro other hother
          rcases List.mem_cons.mp hother with rfl | hlater
          · exact hheld
          · exact fun hmem => htook.fresh other hlater (by
              rw [List.map_append]
              exact List.mem_append_left _ hmem)
        · intro other hother
          rw [← hsplit]
          rcases List.mem_cons.mp hother with rfl | hlater
          · simp
          · exact htook.every other hlater

/-- A read that ends in an error has taken in the pages before it; the error is that of a page, or
the last two cursors are the same. -/
theorem read_error {answers : List (Except PortError InboxBatch)} {after : Option Cursor}
    {added : Nat} {error : PortError} {filled : Queue}
    (hread : queue.read after added answers = (some (.error error), filled)) :
    ∃ pages later, filled = queue.pushAll (pages.flatMap InboxBatch.items) ∧
      (answers = pages.map .ok ++ .error error :: later ∨
        answers = pages.map .ok ++ later ∧
          error = .Fault "the inbox gave the same cursor twice, the list does not advance" ∧
          ∃ before page cursor, pages = before ++ [page] ∧ page.next = some cursor ∧
            (before.getLast?.map InboxBatch.next).getD after = some cursor) := by
  induction answers generalizing queue after added with
  | nil => cases hread
  | cons answer rest hind =>
      rcases answer with failure | page
      · cases hread
        exact ⟨[], rest, rfl, Or.inl rfl⟩
      · unfold read at hread
        dsimp only at hread
        split at hread
        · cases hread
        · rename_i cursor hnext
          split at hread
          · rename_i hsame
            cases hread
            refine ⟨[page], rest, by simp, Or.inr ⟨rfl, rfl, [], page, cursor, rfl, hnext, hsame⟩⟩
          · obtain ⟨pages, later, hfilled, hends⟩ := hind hread
            refine ⟨page :: pages, later, ?_, ?_⟩
            · rw [hfilled, List.flatMap_cons, pushAll_append]
            · refine hends.imp (fun hanswers => by rw [hanswers]; rfl) ?_
              rintro ⟨hanswers, herror, before, last, again, rfl, hlast, hbefore⟩
              refine ⟨by rw [hanswers]; rfl, herror, page :: before, last, again, rfl, hlast, ?_⟩
              rcases before with _ | ⟨first, others⟩
              · exact hnext.trans hbefore
              · exact hbefore

end Queue

/-- The inbox when each page is asked for: between two pages it goes on as `gaps` says. -/
def inboxAt (inbox : MemoryInbox) (gaps : Nat → List InboxOperation) : Nat → MemoryInbox
  | 0 => inbox.after (gaps 0)
  | page + 1 => (inboxAt inbox gaps page).after (gaps (page + 1))

/-- What the inbox answers a reader that asks with each cursor it was given, from page `page` on and
at most `more` times. -/
def answers (inbox : Nat → MemoryInbox) (agent : AgentId) (limit : ℕ+) (page : Nat)
    (after : Option Cursor) : Nat → List (Except PortError InboxBatch)
  | 0 => []
  | more + 1 =>
      match (inbox page).items agent after limit with
      | .error error => [.error error]
      | .ok batch => .ok batch :: match batch.next with
          | none => []
          | some cursor => answers inbox agent limit (page + 1) (some cursor) more

section Pages

open MemoryInbox (Points Numbered)

variable {inbox : Nat → MemoryInbox} {agent : AgentId}

/-- A cursor points at one number. -/
private theorem points_unique {after : Option Cursor} {seq other : Nat} (hseq : Points after seq)
    (hother : Points after other) : seq = other := by
  have hsame := (MemoryInbox.position_points hseq).symm.trans (MemoryInbox.position_points hother)
  exact Except.ok.inj hsame

/-- The entries that a read found, from page `page` on, behind number `seq`. -/
structure Found (inbox : Nat → MemoryInbox) (agent : AgentId) (page seq pages : Nat)
    (found : List (Nat × InboxItem)) : Prop where
  sorted : found.Pairwise fun one other => one.1 < other.1
  behind : ∀ entry ∈ found, seq < entry.1
  unread : ∀ entry ∈ found, ∃ at' < pages, entry ∈ (inbox (page + at')).unread agent
  every : ∀ entry : Nat × InboxItem, seq < entry.1 →
    (∀ at' < pages, entry ∈ (inbox (page + at')).unread agent) → entry ∈ found

/-- The read of the inbox goes on to its last page, each cursor ahead of the one before. -/
theorem read_pages (agent : AgentId) (limit : ℕ+)
    (hnumbered : ∀ page, (inbox page).Numbered) {bound : Nat}
    (hbound : ∀ page, (inbox page).nextSeq ≤ bound) (page : Nat) {seq : Nat}
    {after : Option Cursor} (hpoints : Points after seq) (queue : Queue) (added : Nat) :
    ∃ pages found, pages ≤ bound - seq + 1 ∧ Found inbox agent page seq pages found ∧
      ∀ more, pages ≤ more → queue.read after added (answers inbox agent limit page after more) =
        (some (.ok (added + queue.pushed (found.map Prod.snd))),
          queue.pushAll (found.map Prod.snd)) := by
  induction hgap : bound - seq using Nat.strong_induction_on
    generalizing page seq after queue added with
  | _ gap hind =>
    obtain ⟨entries, next, hitems, hpage⟩ :=
      (inbox page).items_page (hnumbered page) agent hpoints limit
    rcases next with _ | cursor
    · refine ⟨1, entries, Nat.succ_le_succ (Nat.zero_le _), ⟨hpage.sorted,
        fun entry hentry => (hpage.behind entry hentry).2, ?_, ?_⟩, ?_⟩
      · exact fun entry hentry => ⟨0, Nat.one_pos, (hpage.behind entry hentry).1⟩
      · exact fun entry hbehind hunread => hpage.all rfl entry (hunread 0 Nat.one_pos) hbehind
      · intro more hmore
        obtain ⟨fewer, rfl⟩ := Nat.exists_eq_add_of_le' hmore
        unfold answers
        rw [hitems]
        unfold Queue.read
        dsimp only
        rw [Queue.length_pushAll, Nat.add_sub_cancel_left]
    · obtain ⟨last, hlast, hahead, hle, hupTo, hall⟩ := hpage.upTo cursor rfl
      have hcloser : bound - last < gap := by
        have := hbound page
        omega
      obtain ⟨pages, found, hpages, hfound, hread⟩ := hind _ hcloser (page + 1) hlast
        (queue.pushAll (entries.map Prod.snd)) (added + queue.pushed (entries.map Prod.snd)) rfl
      refine ⟨pages + 1, entries ++ found, by omega, ⟨?_, ?_, ?_, ?_⟩, ?_⟩
      · refine List.pairwise_append.mpr ⟨hpage.sorted, hfound.sorted, fun one hone other hother => ?_⟩
        exact (hupTo one hone).trans_lt (hfound.behind other hother)
      · intro entry hentry
        rcases List.mem_append.mp hentry with hfirst | hlater
        · exact (hpage.behind entry hfirst).2
        · exact hahead.trans (hfound.behind entry hlater)
      · intro entry hentry
        rcases List.mem_append.mp hentry with hfirst | hlater
        · exact ⟨0, Nat.succ_pos _, (hpage.behind entry hfirst).1⟩
        · obtain ⟨at', hinside, hunread⟩ := hfound.unread entry hlater
          exact ⟨at' + 1, Nat.succ_lt_succ hinside, by
            rw [Nat.add_comm at', ← Nat.add_assoc]
            exact hunread⟩
      · intro entry hbehind hunread
        by_cases hfirst : entry.1 ≤ last
        · exact List.mem_append_left _ (hall entry (hunread 0 (Nat.succ_pos _)) hbehind hfirst)
        · refine List.mem_append_right _ (hfound.every entry (Nat.not_le.mp hfirst) ?_)
          intro at' hinside
          have hthen := hunread (at' + 1) (Nat.succ_lt_succ hinside)
          rw [Nat.add_comm at', ← Nat.add_assoc] at hthen
          exact hthen
      · intro more hmore
        obtain ⟨fewer, rfl⟩ := Nat.exists_eq_add_of_le' ((Nat.le_add_left 1 pages).trans hmore)
        have hdiffers : after ≠ some cursor := by
          rintro rfl
          exact absurd (points_unique hpoints hlast) hahead.ne
        unfold answers
        rw [hitems]
        unfold Queue.read
        dsimp only
        rw [if_neg hdiffers, Queue.length_pushAll, Nat.add_sub_cancel_left,
          hread fewer (Nat.le_of_succ_le_succ hmore), List.map_append, Queue.pushAll_append,
          Queue.pushed_append, Nat.add_assoc]

theorem inboxAt_numbered {start : MemoryInbox} (hnumbered : start.Numbered)
    (gaps : Nat → List InboxOperation) (page : Nat) : (inboxAt start gaps page).Numbered := by
  induction page with
  | zero => exact hnumbered.after (gaps 0)
  | succ page hind => exact hind.after (gaps (page + 1))

theorem listed_inboxAt {start : MemoryInbox} (gaps : Nat → List InboxOperation) (page : Nat)
    {listed : Listed} (hlisted : listed ∈ (inboxAt start gaps 0).listed) :
    listed ∈ (inboxAt start gaps page).listed := by
  induction page with
  | zero => exact hlisted
  | succ page hind => exact MemoryInbox.listed_after (gaps (page + 1)) hind

end Pages

end LlmGraph.Agentic
