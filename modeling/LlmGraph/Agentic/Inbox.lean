/- digest: The in-memory inbox: what is delivered to an agent is listed under a number that grows, and
   a page gives the unread items behind a cursor, in that order. -/

import Mathlib.Algebra.Group.Nat.Defs
import Mathlib.Data.Finset.Insert
import Mathlib.Data.List.Sort
import Mathlib.Data.PNat.Defs
import LlmGraph.Agentic.Boundary
import LlmGraph.Lib.Attempt
import LlmGraph.Lib.Distinct
import LlmGraph.Lib.Keyed

set_option autoImplicit false
set_option relaxedAutoImplicit false

namespace LlmGraph.Agentic

open Lib (Attempt)

structure Attachment where
  name : String
  document : String
  deriving DecidableEq, Repr

structure NewMail where
  id : EntryId
  author : Author
  source : ConversationId
  recipients : List AgentId
  cc : List AgentId
  subject : String
  body : String
  attachments : List Attachment
  deriving DecidableEq, Repr

/-- `refusal`: a mail needs a recipient, and lists none twice. -/
def NewMail.refusal (mail : NewMail) : Option String :=
  if mail.recipients.isEmpty then some "a mail needs at least one recipient in to"
  else (Lib.firstTwice [] (mail.recipients ++ mail.cc)).map fun recipient =>
    "the recipient " ++ uuidText recipient ++ " is listed twice"

structure SentMail where
  sender : AgentId
  mail : NewMail
  deriving DecidableEq, Repr

structure Listed where
  seq : Nat
  agent : AgentId
  item : InboxItem

/-- The state of the inbox; its documents serve no page. -/
structure MemoryInbox where
  nextSeq : Nat
  mails : List (Nat × SentMail)
  entries : List (Nat × AgentId × InboxEntry)
  read : Finset (AgentId × EntryId)

/-- The numbers of a `u64`. -/
def u64Count : Nat := 2 ^ 64

def mailItem (sent : SentMail) (agent : AgentId) : Option MailItem :=
  let mail := sent.mail
  if agent ∈ mail.recipients then
    some (.To mail.id sent.sender mail.author mail.source mail.recipients mail.cc mail.subject
      mail.body (mail.attachments.map Attachment.name))
  else if agent ∈ mail.cc then some (.Cc mail.id mail.subject)
  else none

/-- What a mail is listed as, for each of its recipients. -/
def SentMail.listed (seq : Nat) (sent : SentMail) : List Listed :=
  (sent.mail.recipients ++ sent.mail.cc).filterMap fun agent =>
    (mailItem sent agent).map fun item => ⟨seq, agent, .Mail item⟩

/-- `position`: a cursor is a number in decimal digits, maybe behind a plus sign. -/
def position : Option Cursor → Except PortError Nat
  | none => .ok 0
  | some cursor =>
      let digits := match cursor.toList with
        | '+' :: digits => digits
        | digits => digits
      if digits.isEmpty || !digits.all Char.isDigit || u64Count ≤ Nat.ofDigitChars 10 digits 0 then
        .error (.Fault "the cursor was not given by this inbox")
      else .ok (Nat.ofDigitChars 10 digits 0)

namespace MemoryInbox

def new : MemoryInbox := ⟨0, [], [], ∅⟩

/-- `take_seq`: an overflow panics, and leaves the state as it is. -/
def takeSeq (inbox : MemoryInbox) : Option (Nat × MemoryInbox) :=
  if inbox.nextSeq + 1 < u64Count then
    some (inbox.nextSeq + 1, { inbox with nextSeq := inbox.nextSeq + 1 })
  else none

/-- What `listed` sorts. -/
def gathered (inbox : MemoryInbox) : List Listed :=
  inbox.mails.flatMap (fun (seq, sent) => sent.listed seq) ++
    inbox.entries.map fun (seq, agent, entry) => ⟨seq, agent, .Entry entry⟩

def listed (inbox : MemoryInbox) : List Listed :=
  inbox.gathered.insertionSort fun one other => one.seq ≤ other.seq

def unread (inbox : MemoryInbox) (agent : AgentId) : List (Nat × InboxItem) :=
  ((inbox.listed.filter fun listed => listed.agent = agent).filter fun listed =>
    (agent, listed.item.id) ∉ inbox.read).map fun listed => (listed.seq, listed.item)

def deliverEntry (inbox : MemoryInbox) (agent : AgentId) (entry : InboxEntry) : MemoryInbox :=
  match inbox.takeSeq with
  | none => inbox
  | some (seq, inbox) => { inbox with entries := inbox.entries ++ [(seq, agent, entry)] }

/-- `deliver_mail`: a mail that is held already is taken in as nothing. -/
def deliverMail (inbox : MemoryInbox) (sender : AgentId) (mail : NewMail) :
    Attempt PortError Unit × MemoryInbox :=
  match mail.refusal with
  | some reason => (.error (.Refused reason), inbox)
  | none =>
      if inbox.mails.any (fun held => held.2.mail.id == mail.id) then (.ok (), inbox)
      else match inbox.takeSeq with
        | none => (.panicked "attempt to add with overflow", inbox)
        | some (seq, inbox) =>
            (.ok (), { inbox with mails := inbox.mails ++ [(seq, ⟨sender, mail⟩)] })

def markRead (inbox : MemoryInbox) (agent : AgentId) (item : EntryId) : MemoryInbox :=
  if inbox.listed.any fun listed => listed.agent == agent && listed.item.id == item then
    { inbox with read := insert (agent, item) inbox.read }
  else inbox

/-- `items`: a page of what is unread behind the cursor. -/
def items (inbox : MemoryInbox) (agent : AgentId) (after : Option Cursor) (limit : ℕ+) :
    Except PortError InboxBatch :=
  match position after with
  | .error error => .error error
  | .ok after =>
      let rest := (inbox.unread agent).filter fun entry => after < entry.1
      let page := rest.take limit
      let next := match page.getLast? with
        | some (seq, _) => if (rest.drop limit).isEmpty then none else some (toString seq)
        | none => none
      .ok ⟨page.map Prod.snd, next⟩

end MemoryInbox

/-- An operation on the inbox, by the host or through the port. -/
inductive InboxOperation where
  | DeliverEntry (agent : AgentId) (entry : InboxEntry)
  | DeliverMail (sender : AgentId) (mail : NewMail)
  | Send (agent : AgentId) (mail : NewMail)
  | MarkRead (agent : AgentId) (item : EntryId)

namespace MemoryInbox

def act (inbox : MemoryInbox) : InboxOperation → MemoryInbox
  | .DeliverEntry agent entry => inbox.deliverEntry agent entry
  | .DeliverMail sender mail => (inbox.deliverMail sender mail).2
  | .Send agent mail => (inbox.deliverMail agent mail).2
  | .MarkRead agent item => inbox.markRead agent item

/-- What a history of operations leaves. -/
def after (inbox : MemoryInbox) (history : List InboxOperation) : MemoryInbox :=
  history.foldl act inbox

/-- The numbers given to what the inbox holds. -/
def seqs (inbox : MemoryInbox) : List Nat :=
  inbox.mails.map Prod.fst ++ inbox.entries.map Prod.fst

/-- Every number is given once, and no mail lists a recipient twice. -/
structure Numbered (inbox : MemoryInbox) : Prop where
  fits : inbox.nextSeq < u64Count
  given : ∀ seq ∈ inbox.seqs, 0 < seq ∧ seq ≤ inbox.nextSeq
  distinct : inbox.seqs.Nodup
  recipients : ∀ held ∈ inbox.mails, (held.2.mail.recipients ++ held.2.mail.cc).Nodup

theorem numbered_new : new.Numbered where
  fits := by decide
  given _ hseq := by cases hseq
  distinct := List.nodup_nil
  recipients _ hheld := by cases hheld

/-- What one operation can do: nothing that lists, or the listing of one more delivery. -/
inductive Moved (inbox : MemoryInbox) : MemoryInbox → Prop
  | marked (read : Finset (AgentId × EntryId)) : Moved inbox { inbox with read }
  | entry (agent : AgentId) (entry : InboxEntry) (hfits : inbox.nextSeq + 1 < u64Count) :
      Moved inbox { inbox with
        nextSeq := inbox.nextSeq + 1
        entries := inbox.entries ++ [(inbox.nextSeq + 1, agent, entry)] }
  | mail (sent : SentMail) (hfits : inbox.nextSeq + 1 < u64Count)
      (hrecipients : (sent.mail.recipients ++ sent.mail.cc).Nodup) :
      Moved inbox { inbox with
        nextSeq := inbox.nextSeq + 1
        mails := inbox.mails ++ [(inbox.nextSeq + 1, sent)] }

private theorem nodup_of_refusal {mail : NewMail} (haccepted : mail.refusal = none) :
    (mail.recipients ++ mail.cc).Nodup := by
  unfold NewMail.refusal at haccepted
  split at haccepted
  · cases haccepted
  · exact (Lib.firstTwice_none (Option.map_eq_none_iff.mp haccepted)).1

private theorem moved_deliverMail (inbox : MemoryInbox) (sender : AgentId) (mail : NewMail) :
    inbox.Moved (inbox.deliverMail sender mail).2 := by
  unfold deliverMail
  split
  · exact .marked inbox.read
  · rename_i haccepted
    split
    · exact .marked inbox.read
    · unfold takeSeq
      by_cases hfits : inbox.nextSeq + 1 < u64Count
      · rw [if_pos hfits]
        exact .mail ⟨sender, mail⟩ hfits (nodup_of_refusal haccepted)
      · rw [if_neg hfits]
        exact .marked inbox.read

theorem moved_act (inbox : MemoryInbox) (operation : InboxOperation) :
    inbox.Moved (inbox.act operation) := by
  cases operation with
  | DeliverEntry agent entry =>
      unfold act deliverEntry takeSeq
      by_cases hfits : inbox.nextSeq + 1 < u64Count
      · rw [if_pos hfits]
        exact .entry agent entry hfits
      · rw [if_neg hfits]
        exact .marked inbox.read
  | DeliverMail sender mail => exact moved_deliverMail inbox sender mail
  | Send agent mail => exact moved_deliverMail inbox agent mail
  | MarkRead agent item =>
      unfold act markRead
      dsimp only
      split
      · exact .marked _
      · exact .marked inbox.read

variable {inbox next : MemoryInbox}

theorem Numbered.moved (hnumbered : inbox.Numbered) (hmoved : inbox.Moved next) :
    next.Numbered := by
  obtain ⟨hfits, hgiven, hdistinct, hrecipients⟩ := hnumbered
  have hfresh : inbox.nextSeq + 1 ∉ inbox.seqs := fun hseq => by
    have hle := (hgiven _ hseq).2
    omega
  have hkept (seq : Nat) (hseq : seq ∈ inbox.seqs) : 0 < seq ∧ seq ≤ inbox.nextSeq + 1 :=
    ⟨(hgiven seq hseq).1, Nat.le_succ_of_le (hgiven seq hseq).2⟩
  cases hmoved with
  | marked read => exact ⟨hfits, hgiven, hdistinct, hrecipients⟩
  | entry agent entry hfits' =>
      have hseqs : ({ inbox with
          nextSeq := inbox.nextSeq + 1
          entries := inbox.entries ++ [(inbox.nextSeq + 1, agent, entry)] } : MemoryInbox).seqs =
            inbox.seqs ++ [inbox.nextSeq + 1] := by
        simp [seqs]
      refine ⟨hfits', ?_, ?_, hrecipients⟩
      · intro seq hseq
        rw [hseqs, List.mem_append, List.mem_singleton] at hseq
        rcases hseq with hseq | rfl
        · exact hkept seq hseq
        · exact ⟨Nat.succ_pos _, Nat.le_refl _⟩
      · rw [hseqs]
        exact hdistinct.append (List.nodup_singleton _) (by simpa using hfresh)
  | mail sent hfits' hnodup =>
      have hseqs : ({ inbox with
          nextSeq := inbox.nextSeq + 1
          mails := inbox.mails ++ [(inbox.nextSeq + 1, sent)] } : MemoryInbox).seqs.Perm
            ((inbox.nextSeq + 1) :: inbox.seqs) := by
        simp only [seqs, List.map_append, List.map_cons, List.map_nil, List.append_assoc]
        exact List.perm_middle
      refine ⟨hfits', ?_, ?_, ?_⟩
      · intro seq hseq
        rcases List.mem_cons.mp (hseqs.mem_iff.mp hseq) with rfl | hseq
        · exact ⟨Nat.succ_pos _, Nat.le_refl _⟩
        · exact hkept seq hseq
      · exact hseqs.nodup_iff.mpr (List.nodup_cons.mpr ⟨hfresh, hdistinct⟩)
      · intro held hheld
        rcases List.mem_append.mp hheld with hheld | hheld
        · exact hrecipients held hheld
        · cases List.mem_singleton.mp hheld
          exact hnodup

/-- The inbox after any history numbers what it holds. -/
theorem Numbered.after (hnumbered : inbox.Numbered) (history : List InboxOperation) :
    (inbox.after history).Numbered := by
  induction history generalizing inbox with
  | nil => exact hnumbered
  | cons operation rest hind => exact hind (hnumbered.moved (moved_act inbox operation))

private theorem gathered_moved (hmoved : inbox.Moved next) :
    ∀ listed ∈ inbox.gathered, listed ∈ next.gathered := by
  intro listed hlisted
  unfold gathered at hlisted ⊢
  cases hmoved with
  | marked read => exact hlisted
  | entry agent entry =>
      dsimp only
      rw [List.map_append, ← List.append_assoc]
      exact List.mem_append_left _ hlisted
  | mail sent =>
      dsimp only
      rw [List.flatMap_append]
      rcases List.mem_append.mp hlisted with hmail | hentry
      · exact List.mem_append_left _ (List.mem_append_left _ hmail)
      · exact List.mem_append_right _ hentry

/-- What is listed stays listed, under its number. -/
theorem listed_after (history : List InboxOperation) {listed : Listed}
    (hlisted : listed ∈ inbox.listed) : listed ∈ (inbox.after history).listed := by
  unfold MemoryInbox.listed at hlisted ⊢
  rw [List.mem_insertionSort] at hlisted ⊢
  induction history generalizing inbox with
  | nil => exact hlisted
  | cons operation rest hind => exact hind (gathered_moved (moved_act inbox operation) _ hlisted)

section Unread

/-- Of one mail an agent is listed at most once. -/
private theorem listed_once (sent : SentMail) (seq : Nat) (agent : AgentId)
    {recipients : List AgentId} (hrecipients : recipients.Nodup) :
    (((recipients.filterMap fun agent => (mailItem sent agent).map fun item =>
      (⟨seq, agent, .Mail item⟩ : Listed)).filter fun listed => listed.agent = agent).map
        Listed.seq).Sublist [seq] := by
  induction recipients with
  | nil => exact List.nil_sublist _
  | cons recipient rest hind =>
      obtain ⟨hnew, hrest⟩ := List.nodup_cons.mp hrecipients
      rw [List.filterMap_cons]
      rcases mailItem sent recipient with _ | item
      · exact hind hrest
      · dsimp only [Option.map_some]
        by_cases hsame : recipient = agent
        · rw [List.filter_cons_of_pos (by simpa using hsame)]
          have hnone : ((rest.filterMap fun agent => (mailItem sent agent).map fun item =>
              (⟨seq, agent, .Mail item⟩ : Listed)).filter fun listed =>
                listed.agent = agent) = [] := by
            refine List.filter_eq_nil_iff.mpr fun listed hlisted => ?_
            obtain ⟨other, hother, hitem⟩ := List.mem_filterMap.mp hlisted
            obtain ⟨item', -, rfl⟩ := Option.map_eq_some_iff.mp hitem
            intro hagent
            rw [decide_eq_true_eq] at hagent
            exact hnew (by rw [hsame, ← hagent]; exact hother)
          rw [hnone]
          exact List.Sublist.refl _
        · rw [List.filter_cons_of_neg (by simpa using hsame)]
          exact hind hrest

private theorem mails_once (agent : AgentId) {mails : List (Nat × SentMail)}
    (hrecipients : ∀ held ∈ mails, (held.2.mail.recipients ++ held.2.mail.cc).Nodup) :
    (((mails.flatMap fun held => held.2.listed held.1).filter fun listed =>
      listed.agent = agent).map Listed.seq).Sublist (mails.map Prod.fst) := by
  induction mails with
  | nil => exact List.Sublist.refl _
  | cons held rest hind =>
      rw [List.flatMap_cons, List.filter_append, List.map_append, List.map_cons]
      exact (listed_once held.2 held.1 agent (hrecipients held List.mem_cons_self)).append
        (hind fun other hother => hrecipients other (List.mem_cons_of_mem _ hother))

private theorem gathered_once (hnumbered : inbox.Numbered) (agent : AgentId) :
    ((inbox.gathered.filter fun listed => listed.agent = agent).map Listed.seq).Sublist
      inbox.seqs := by
  unfold gathered seqs
  rw [List.filter_append, List.map_append]
  refine (mails_once agent hnumbered.recipients).append ?_
  refine (List.filter_sublist.map Listed.seq).trans ?_
  rw [List.map_map]
  exact List.Sublist.refl _

/-- What an agent is listed as stands in the order of the numbers. -/
private theorem listed_sorted (hnumbered : inbox.Numbered) (agent : AgentId) :
    (inbox.listed.filter fun listed => listed.agent = agent).Pairwise fun one other =>
      one.seq < other.seq := by
  have hle : (inbox.listed.filter fun listed => listed.agent = agent).Pairwise fun one other =>
      one.seq ≤ other.seq :=
    (List.pairwise_insertionSort _ inbox.gathered).sublist List.filter_sublist
  have hperm := ((List.perm_insertionSort (fun one other : Listed => one.seq ≤ other.seq)
    inbox.gathered).filter fun listed => listed.agent = agent).map Listed.seq
  have hdistinct : ((inbox.listed.filter fun listed => listed.agent = agent).map
      Listed.seq).Nodup :=
    hperm.nodup_iff.mpr (hnumbered.distinct.sublist (gathered_once hnumbered agent))
  exact (hle.and (List.pairwise_map.mp hdistinct)).imp fun hboth => lt_of_le_of_ne hboth.1 hboth.2

theorem unread_sorted (hnumbered : inbox.Numbered) (agent : AgentId) :
    (inbox.unread agent).Pairwise fun one other => one.1 < other.1 :=
  List.pairwise_map.mpr ((listed_sorted hnumbered agent).sublist List.filter_sublist)

theorem mem_unread {agent : AgentId} {entry : Nat × InboxItem} :
    entry ∈ inbox.unread agent ↔
      ⟨entry.1, agent, entry.2⟩ ∈ inbox.listed ∧ (agent, entry.2.id) ∉ inbox.read := by
  unfold unread
  constructor
  · intro hmem
    obtain ⟨listed, hlisted, rfl⟩ := List.mem_map.mp hmem
    obtain ⟨hagent, hunread⟩ := List.mem_filter.mp hlisted
    obtain ⟨hgathered, hsame⟩ := List.mem_filter.mp hagent
    rw [decide_eq_true_eq] at hunread hsame
    subst hsame
    exact ⟨hgathered, hunread⟩
  · rintro ⟨hlisted, hunread⟩
    refine List.mem_map.mpr ⟨⟨entry.1, agent, entry.2⟩, ?_, rfl⟩
    exact List.mem_filter.mpr ⟨List.mem_filter.mpr ⟨hlisted, decide_eq_true rfl⟩,
      decide_eq_true hunread⟩

theorem listed_given (hnumbered : inbox.Numbered) {listed : Listed}
    (hlisted : listed ∈ inbox.listed) : 0 < listed.seq ∧ listed.seq ≤ inbox.nextSeq := by
  unfold MemoryInbox.listed at hlisted
  rw [List.mem_insertionSort] at hlisted
  have hseq := (gathered_once hnumbered listed.agent).mem (List.mem_map_of_mem
    (List.mem_filter.mpr ⟨hlisted, decide_eq_true rfl⟩))
  exact hnumbered.given listed.seq hseq

end Unread

section Pages

/-- A cursor that the inbox gave points at a number. -/
def Points : Option Cursor → Nat → Prop
  | none, seq => seq = 0
  | some cursor, seq => cursor = toString seq ∧ seq < u64Count

theorem position_points {after : Option Cursor} {seq : Nat} (hpoints : Points after seq) :
    position after = .ok seq := by
  rcases after with _ | cursor
  · rw [show seq = 0 from hpoints]
    rfl
  · obtain ⟨rfl, hfits⟩ := hpoints
    have hdigits : ∀ c ∈ Nat.toDigits 10 seq, c.isDigit = true :=
      fun c hmem => Nat.isDigit_of_mem_toDigits (by decide) (by decide) hmem
    have hvalue : Nat.ofDigitChars 10 (Nat.toDigits 10 seq) 0 = seq := Nat.ofDigitChars_ten_toDigits
    have htext : (toString seq).toList = Nat.toDigits 10 seq := by
      rw [Nat.toString_eq_repr, Nat.toList_repr]
    have hplain : (match Nat.toDigits 10 seq with
        | '+' :: digits => digits
        | digits => digits) = Nat.toDigits 10 seq := by
      split
      · rename_i digits heq
        have hplus := hdigits '+' (by rw [heq]; exact List.mem_cons_self)
        cases hplus
      · rfl
    unfold position
    dsimp only
    rw [htext, hplain, hvalue, if_neg]
    rw [Bool.or_eq_true, Bool.or_eq_true, not_or, not_or, List.isEmpty_iff, Bool.not_eq_true',
      Bool.not_eq_false, List.all_eq_true, decide_eq_true_eq]
    exact ⟨⟨Nat.toDigits_ne_nil, hdigits⟩, Nat.not_le.mpr hfits⟩

/-- What a page gives of the unread entries behind a number: all of them, or those up to the number
its cursor points at. -/
structure Page (inbox : MemoryInbox) (agent : AgentId) (seq : Nat)
    (entries : List (Nat × InboxItem)) (next : Option Cursor) : Prop where
  sorted : entries.Pairwise fun one other => one.1 < other.1
  behind : ∀ entry ∈ entries, entry ∈ inbox.unread agent ∧ seq < entry.1
  all : next = none → ∀ entry ∈ inbox.unread agent, seq < entry.1 → entry ∈ entries
  upTo : ∀ cursor, next = some cursor → ∃ last, Points (some cursor) last ∧ seq < last ∧
    last ≤ inbox.nextSeq ∧ (∀ entry ∈ entries, entry.1 ≤ last) ∧
      ∀ entry ∈ inbox.unread agent, seq < entry.1 → entry.1 ≤ last → entry ∈ entries

theorem items_page (hnumbered : inbox.Numbered) (agent : AgentId) {after : Option Cursor} {seq : Nat}
    (hpoints : Points after seq) (limit : ℕ+) : ∃ entries next,
      inbox.items agent after limit = .ok ⟨entries.map Prod.snd, next⟩ ∧
        inbox.Page agent seq entries next := by
  unfold items
  rw [position_points hpoints]
  dsimp only
  have hsorted : ((inbox.unread agent).filter fun entry => seq < entry.1).Pairwise
      fun one other => one.1 < other.1 :=
    (unread_sorted hnumbered agent).sublist List.filter_sublist
  have hmem (entry : Nat × InboxItem) :
      entry ∈ (inbox.unread agent).filter (fun entry => seq < entry.1) ↔
        entry ∈ inbox.unread agent ∧ seq < entry.1 := by
    rw [List.mem_filter, decide_eq_true_eq]
  generalize (inbox.unread agent).filter (fun entry => seq < entry.1) = rest at hsorted hmem
  refine ⟨rest.take limit, _, rfl, hsorted.sublist (List.take_sublist _ _), ?_, ?_, ?_⟩
  · intro entry hentry
    exact (hmem entry).mp (List.mem_of_mem_take hentry)
  · intro hnext entry hunread hbehind
    have hrest := (hmem entry).mpr ⟨hunread, hbehind⟩
    rw [← List.take_append_drop limit rest] at hrest
    rcases List.mem_append.mp hrest with htaken | hdropped
    · exact htaken
    · split at hnext
      · split at hnext
        · rename_i hempty
          rw [List.isEmpty_iff.mp hempty] at hdropped
          cases hdropped
        · cases hnext
      · rename_i hnone
        rw [List.getLast?_eq_none_iff, List.take_eq_nil_iff] at hnone
        rcases hnone with hzero | hempty
        · exact absurd hzero limit.ne_zero
        · rw [hempty, List.drop_nil] at hdropped
          cases hdropped
  · intro cursor hnext
    split at hnext
    · rename_i last item hlast
      split at hnext
      · cases hnext
      · cases hnext
        have hlisted := (hmem _).mp (List.mem_of_mem_take (List.mem_of_getLast? hlast))
        have hfits := (listed_given hnumbered (mem_unread.mp hlisted.1).1).2
        refine ⟨last, ⟨rfl, hfits.trans_lt hnumbered.fits⟩, hlisted.2, hfits, ?_, ?_⟩
        · intro entry hentry
          exact Lib.le_getLast? (hsorted.sublist (List.take_sublist _ _)) hlast
            hentry
        · intro entry hunread hbehind hle
          exact Lib.mem_take_of_le hsorted hlast
            ((hmem entry).mpr ⟨hunread, hbehind⟩) hle
    · cases hnext

end Pages

end MemoryInbox

end LlmGraph.Agentic
