/- digest: The entries that are built for mail: their texts hold what others wrote only between
   quotes, so a text tells the mail it was built for, and the boundary takes every entry. -/

import LlmGraph.Agentic.Boundary
import LlmGraph.Lib.Layout

set_option autoImplicit false
set_option relaxedAutoImplicit false

namespace LlmGraph.Agentic

open Lib (Reads Ends hexValue isHex)

/-- `char::is_control`: the general category Cc. -/
def isControl (c : Char) : Bool := decide (c.toNat < 32) || decide (127 ≤ c.toNat ∧ c.toNat < 160)

/-- What `quote` writes for a character. -/
def escaped (character : Char) : List Char :=
  if character = '"' then ['\\', '"']
  else if character = '\\' then ['\\', '\\']
  else if character = '\n' then ['\\', 'n']
  else if character = '\r' then ['\\', 'r']
  else if character = '\t' then ['\\', 't']
  else if isControl character then
    ['\\', 'u', '{'] ++ Nat.toDigits 16 character.toNat ++ ['}']
  else [character]

def quote (text : String) : String :=
  String.ofList ('"' :: (text.toList.flatMap escaped ++ ['"']))

/-- A reader of what `escaped` writes. -/
def unescaped : List Char → Option (Char × List Char)
  | [] => none
  | ['\\'] => none
  | '\\' :: kind :: rest =>
      if kind = 'n' then some ('\n', rest)
      else if kind = 'r' then some ('\r', rest)
      else if kind = 't' then some ('\t', rest)
      else if kind = 'u' then
        let digits := (rest.drop 1).takeWhile isHex
        some (Char.ofNat (hexValue digits), rest.drop (digits.length + 2))
      else some (kind, rest)
  | c :: rest => some (c, rest)

theorem unescaped_escaped (c : Char) (rest : List Char) :
    unescaped (escaped c ++ rest) = some (c, rest) := by
  unfold escaped
  split
  · rename_i hc
    rw [hc]
    rfl
  split
  · rename_i hc
    rw [hc]
    rfl
  split
  · rename_i hc
    rw [hc]
    rfl
  split
  · rename_i hc
    rw [hc]
    rfl
  split
  · rename_i hc
    rw [hc]
    rfl
  split
  · have hdigits : ((Nat.toDigits 16 c.toNat ++ ['}'] ++ rest).takeWhile isHex) =
        Nat.toDigits 16 c.toNat := by
      rw [List.append_assoc, List.takeWhile_append_of_pos fun _ => Lib.isHex_of_mem_toDigits]
      exact List.append_nil _
    show some (Char.ofNat (hexValue ((Nat.toDigits 16 c.toNat ++ ['}'] ++ rest).takeWhile isHex)),
      (Nat.toDigits 16 c.toNat ++ ['}'] ++ rest).drop
        (((Nat.toDigits 16 c.toNat ++ ['}'] ++ rest).takeWhile isHex).length + 1)) = _
    rw [hdigits, Lib.hexValue_toDigits, Char.ofNat_toNat]
    have hlength : (Nat.toDigits 16 c.toNat ++ ['}']).length =
        (Nat.toDigits 16 c.toNat).length + 1 := List.length_append
    rw [← hlength, List.drop_left]
  · rename_i hquote hback hline hreturn htab hcontrol
    show unescaped (c :: rest) = some (c, rest)
    unfold unescaped
    split
    · rename_i hnil
      cases hnil
    · rename_i hlast
      exact absurd (List.cons.inj hlast).1 hback
    · rename_i hcode
      exact absurd (List.cons.inj hcode).1 hback
    · rename_i hplain
      obtain ⟨rfl, rfl⟩ := List.cons.inj hplain
      rfl

/-- No code starts with a quote. -/
theorem escaped_closed (c : Char) (rest rest' : List Char) : escaped c ++ rest ≠ '"' :: rest' := by
  intro hsame
  have hread := unescaped_escaped c rest
  rw [hsame] at hread
  have hc : c = '"' := by
    have hplain : unescaped ('"' :: rest') = some ('"', rest') := rfl
    rw [hplain] at hread
    cases hread
    rfl
  rw [hc] at hsame
  have hhead : '\\' = '"' := (List.cons.inj hsame).1
  revert hhead
  decide

theorem quote_reads : Reads (fun _ => True) fun text : String => (quote text).toList := by
  have hcodes : Reads (fun _ => True) escaped :=
    Reads.of_read fun value rest _ => unescaped_escaped value rest
  have hbody := (hcodes.escaped escaped_closed).comp fun (one other : String) hsame =>
    String.toList_injective hsame
  have hquote (text : String) (rest : List Char) : (quote text).toList ++ rest =
      '"' :: (text.toList.flatMap escaped ++ ['"'] ++ rest) := by
    unfold quote
    rw [String.toList_ofList]
    rfl
  intro one other rest rest' hrest hrest' hsame
  rw [hquote, hquote] at hsame
  exact hbody one other rest rest' hrest hrest' (List.cons.inj hsame).2

/-- How many quotes no backslash escapes, where the text before escapes the next character or not. -/
def bareQuotes : Bool → List Char → Nat
  | _, [] => 0
  | true, _ :: rest => bareQuotes false rest
  | false, c :: rest => (if c = '"' then 1 else 0) + bareQuotes (c == '\\') rest

theorem bareQuotes_word {word : List Char} (hword : ∀ c ∈ word, c ≠ '"' ∧ c ≠ '\\')
    (rest : List Char) : bareQuotes false (word ++ rest) = bareQuotes false rest := by
  induction word with
  | nil => rfl
  | cons c word hind =>
      obtain ⟨hquote, hback⟩ := hword c List.mem_cons_self
      have hlater := hind fun c hc => hword c (List.mem_cons_of_mem _ hc)
      show (if c = '"' then 1 else 0) + bareQuotes (c == '\\') (word ++ rest) = _
      rw [if_neg hquote, beq_false_of_ne hback, hlater, Nat.zero_add]

/-- A code has no bare quote, and leaves what follows it as it is. -/
theorem bareQuotes_escaped (c : Char) (rest : List Char) :
    bareQuotes false (escaped c ++ rest) = bareQuotes false rest := by
  unfold escaped
  split
  · exact Nat.zero_add _
  rename_i hquote
  split
  · exact Nat.zero_add _
  rename_i hback
  split
  · exact Nat.zero_add _
  split
  · exact Nat.zero_add _
  split
  · exact Nat.zero_add _
  split
  · have hword : ∀ d ∈ '{' :: (Nat.toDigits 16 c.toNat ++ ['}']), d ≠ '"' ∧ d ≠ '\\' := by
      intro d hd
      rw [List.mem_cons, List.mem_append, List.mem_singleton] at hd
      rcases hd with rfl | hdigit | rfl
      · decide
      · have hhex := Lib.isHex_of_mem_toDigits hdigit
        refine ⟨fun hsame => ?_, fun hsame => ?_⟩
        · rw [hsame] at hhex
          exact absurd hhex (by decide)
        · rw [hsame] at hhex
          exact absurd hhex (by decide)
      · decide
    show 0 + bareQuotes false ('{' :: (Nat.toDigits 16 c.toNat ++ ['}']) ++ rest) = _
    rw [bareQuotes_word hword, Nat.zero_add]
  · have hword : ∀ d ∈ [c], d ≠ '"' ∧ d ≠ '\\' := by
      intro d hd
      rw [List.mem_singleton.mp hd]
      exact ⟨hquote, hback⟩
    exact bareQuotes_word hword rest

theorem bareQuotes_flatMap (text rest : List Char) :
    bareQuotes false (text.flatMap escaped ++ rest) = bareQuotes false rest := by
  induction text with
  | nil => rfl
  | cons c text hind => rw [List.flatMap_cons, List.append_assoc, bareQuotes_escaped, hind]

theorem isControl_of_isHex {c : Char} (hhex : isHex c = true) : isControl c = false := by
  unfold isHex Char.isDigit at hhex
  rw [Bool.or_eq_true, Bool.and_eq_true, Bool.and_eq_true] at hhex
  simp only [decide_eq_true_eq, ge_iff_le, Char.le_def, UInt32.le_iff_toNat_le] at hhex
  have hlow : 48 ≤ c.val.toNat ∧ c.val.toNat ≤ 102 := by
    rcases hhex with ⟨hfrom, hto⟩ | ⟨hfrom, hto⟩
    · have hfrom' : 48 ≤ c.val.toNat := hfrom
      have hto' : c.val.toNat ≤ 57 := hto
      omega
    · have hfrom' : 97 ≤ c.val.toNat := hfrom
      have hto' : c.val.toNat ≤ 102 := hto
      omega
  unfold isControl Char.toNat
  rw [Bool.or_eq_false_iff, decide_eq_false_iff_not, decide_eq_false_iff_not]
  omega

theorem escaped_control {c d : Char} (hmem : d ∈ escaped c) : isControl d = false := by
  unfold escaped at hmem
  have hword {word : List Char} (hplain : word.all (!isControl ·) = true) (hd : d ∈ word) :
      isControl d = false := by
    have hnot := List.all_eq_true.mp hplain d hd
    rwa [Bool.not_eq_true'] at hnot
  split at hmem
  · exact hword (by decide) hmem
  split at hmem
  · exact hword (by decide) hmem
  split at hmem
  · exact hword (by decide) hmem
  split at hmem
  · exact hword (by decide) hmem
  split at hmem
  · exact hword (by decide) hmem
  split at hmem
  · rw [List.mem_append, List.mem_append] at hmem
    rcases hmem with (hbefore | hdigit) | hafter
    · exact hword (by decide) hbefore
    · exact isControl_of_isHex (Lib.isHex_of_mem_toDigits hdigit)
    · exact hword (by decide) hafter
  · rename_i hplain
    rw [List.mem_singleton.mp hmem]
    rwa [Bool.not_eq_true] at hplain

/-- A quoted text holds no control character, and no bare quote but the two around it. -/
theorem quote_closed (text : String) :
    (∀ c ∈ (quote text).toList, isControl c = false) ∧
      ∃ inner, (quote text).toList = '"' :: (inner ++ ['"']) ∧ bareQuotes false inner = 0 ∧
        bareQuotes false (inner ++ ['"']) = 1 := by
  have hquote : (quote text).toList = '"' :: (text.toList.flatMap escaped ++ ['"']) := by
    unfold quote
    rw [String.toList_ofList]
  refine ⟨fun c hc => ?_, _, hquote, ?_, ?_⟩
  · rw [hquote, List.mem_cons, List.mem_append, List.mem_singleton, List.mem_flatMap] at hc
    rcases hc with rfl | ⟨d, -, hcode⟩ | rfl
    · decide
    · exact escaped_control hcode
    · decide
  · have hnone := bareQuotes_flatMap text.toList []
    rwa [List.append_nil] at hnone
  · exact bareQuotes_flatMap text.toList ['"']

structure TextBlock where
  id : BlockId
  text : String
  deriving DecidableEq, Repr

structure AgentMail where
  id : EntryId
  sender : AgentId
  author : Author
  source : ConversationId
  blocks : List TextBlock
  deriving DecidableEq, Repr

structure RuntimeNotice where
  id : EntryId
  text : String
  deriving DecidableEq, Repr

/-- What the conversation library makes of the parts of an entry, or refuses. -/
structure MailLibrary where
  textBlock : BlockId → String → Except MessageError TextBlock
  agentMail : EntryId → AgentId → Author → ConversationId → List TextBlock →
    Except MessageError AgentMail
  runtimeNotice : EntryId → String → Except MessageError RuntimeNotice

/-- What is documented of it: a value that is made holds what it is made of. -/
structure MailLibrary.Lawful (library : MailLibrary) : Prop where
  textBlock : ∀ id text block, library.textBlock id text = .ok block → block = ⟨id, text⟩
  agentMail : ∀ id sender author source blocks mail,
    library.agentMail id sender author source blocks = .ok mail →
      mail = ⟨id, sender, author, source, blocks⟩
  runtimeNotice : ∀ id text notice, library.runtimeNotice id text = .ok notice →
    notice = ⟨id, text⟩

/-- An entry that is built for a mail. -/
inductive MailEntry where
  | AgentMail (mail : Agentic.AgentMail)
  | RuntimeNotice (notice : Agentic.RuntimeNotice)
  deriving DecidableEq, Repr

namespace MailEntry

def incoming : MailEntry → IncomingEntry
  | AgentMail mail => .AgentMail mail.id mail.sender mail.author mail.source
  | RuntimeNotice notice => .RuntimeNotice notice.id

def texts : MailEntry → List String
  | AgentMail mail => mail.blocks.map TextBlock.text
  | RuntimeNotice notice => [notice.text]

end MailEntry

/-- The characters of a UUID as it is shown. -/
def ofUuid (c : Char) : Bool := isHex c || c == '-'

/-- What is documented of how a UUID is shown: hexadecimal digits and hyphens, another text for
each. -/
structure UuidShown (uuid : Nat → String) : Prop where
  characters : ∀ id, ∀ c ∈ (uuid id).toList, ofUuid c = true
  nonempty : ∀ id, (uuid id).toList ≠ []
  injective : Function.Injective uuid

structure MailEntries where
  known : List (AgentId × Author)

namespace MailEntries

def agent (entries : MailEntries) (uuid : Nat → String) (agent : AgentId) : String :=
  match entries.known.find? (·.1 == agent) with
  | some (_, author) => uuid agent ++ " (author " ++ quote author ++ ")"
  | none => uuid agent

def agents (entries : MailEntries) (uuid : Nat → String) (agents : List AgentId) : String :=
  if agents.isEmpty then "none" else ", ".intercalate (agents.map (entries.agent uuid))

def names (attachmentNames : List String) : String :=
  if attachmentNames.isEmpty then "none" else ", ".intercalate (attachmentNames.map quote)

def text (entries : MailEntries) (uuid : Nat → String) : MailItem → String
  | .To id sender author _ recipients cc subject body attachmentNames =>
      "Mail " ++ uuid id ++ "\nFrom: " ++ uuid sender ++ " (author " ++ quote author ++ ")\nTo: " ++
        entries.agents uuid recipients ++ "\nCc: " ++ entries.agents uuid cc ++ "\nSubject: " ++
        quote subject ++ "\nBody: " ++ quote body ++ "\nAttachments: " ++ names attachmentNames
  | .Cc id subject => "You are in copy of the mail " ++ uuid id ++ ". Subject: " ++ quote subject

/-- `build`, with the identity that is made for the block, or the error of making it. -/
def build (entries : MailEntries) (uuid : Nat → String) (library : MailLibrary)
    (blockId : Except MessageError BlockId) (item : MailItem) : Except MessageError MailEntry :=
  match item with
  | .To id sender author source .. =>
      match blockId with
      | .error error => .error error
      | .ok blockId =>
          match library.textBlock blockId (entries.text uuid item) with
          | .error error => .error error
          | .ok block => (library.agentMail id sender author source [block]).map .AgentMail
  | .Cc id _ => (library.runtimeNotice id (entries.text uuid item)).map .RuntimeNotice

/-- What is built holds the text of the mail, and is an entry of it. -/
theorem build_ok {entries : MailEntries} {uuid : Nat → String} {library : MailLibrary}
    {blockId : Except MessageError BlockId} {item : MailItem} {entry : MailEntry}
    (hlawful : library.Lawful) (hbuilt : entries.build uuid library blockId item = .ok entry) :
    entry.texts = [entries.text uuid item] ∧ isEntryOf item entry.incoming = true := by
  unfold build at hbuilt
  split at hbuilt
  · rename_i id sender author source recipients cc subject body attachmentNames
    split at hbuilt
    · cases hbuilt
    rename_i blockId
    split at hbuilt
    · cases hbuilt
    rename_i block hblock
    cases hmail : library.agentMail id sender author source [block] with
    | error error =>
        rw [hmail] at hbuilt
        cases hbuilt
    | ok mail =>
        rw [hmail] at hbuilt
        cases hbuilt
        cases hlawful.textBlock _ _ _ hblock
        cases hlawful.agentMail _ _ _ _ _ _ hmail
        refine ⟨rfl, ?_⟩
        unfold isEntryOf
        simp only [MailEntry.incoming, IncomingEntry.id, MailItem.id, beq_self_eq_true, Bool.and_self]
  · rename_i id subject
    cases hnotice : library.runtimeNotice id (entries.text uuid (.Cc id subject)) with
    | error error =>
        rw [hnotice] at hbuilt
        cases hbuilt
    | ok notice =>
        rw [hnotice] at hbuilt
        cases hbuilt
        cases hlawful.runtimeNotice _ _ _ hnotice
        refine ⟨rfl, ?_⟩
        unfold isEntryOf
        simp only [MailEntry.incoming, IncomingEntry.id, MailItem.id, beq_self_eq_true, Bool.and_self]

theorem uuid_reads {uuid : Nat → String} (hshown : UuidShown uuid) :
    Reads (fun c => ofUuid c = false) fun id => (uuid id).toList := by
  refine Reads.of_word hshown.characters (fun c hc hinside => ?_) fun id other hsame => ?_
  · rw [hc] at hinside
    cases hinside
  · exact hshown.injective (String.toList_injective hsame)

/-- Whether an author follows depends on the agent alone, so the agent is told. -/
theorem agent_reads {uuid : Nat → String} (hshown : UuidShown uuid) (entries : MailEntries) :
    Reads (fun c => c = ',' ∨ c = '\n') fun agent => (entries.agent uuid agent).toList := by
  have hagent (agent : AgentId) : (entries.agent uuid agent).toList = (uuid agent).toList ++
      ((entries.known.find? (·.1 == agent)).elim [] fun known =>
        " (author ".toList ++ ((quote known.2).toList ++ [')'])) := by
    unfold MailEntries.agent
    cases entries.known.find? (·.1 == agent) with
    | none => exact (List.append_nil _).symm
    | some known =>
        show (uuid agent ++ " (author " ++ quote known.2 ++ ")").toList = _
        rw [String.toList_append, String.toList_append, String.toList_append, List.append_assoc,
          List.append_assoc]
        rfl
  simp only [hagent]
  refine (uuid_reads hshown).suffixed fun agent rest hrest => ?_
  cases entries.known.find? (·.1 == agent) with
  | none =>
      refine Ends.imp hrest fun c hc => ?_
      rcases hc with rfl | rfl
      · decide
      · decide
  | some known =>
      have hspace : (" (author ".toList).head? = some ' ' := rfl
      rw [Option.elim_some, List.append_assoc]
      exact Lib.ends_append hspace (by decide) _

theorem agents_reads {uuid : Nat → String} (hshown : UuidShown uuid) (entries : MailEntries) :
    Reads (fun c => c = '\n') fun agents => (entries.agents uuid agents).toList := by
  have hword (agent : AgentId) (rest rest' : List Char) :
      (entries.agent uuid agent).toList ++ rest ≠ "none".toList ++ rest' := by
    intro hsame
    obtain ⟨c, later, huuid⟩ := List.exists_cons_of_ne_nil (hshown.nonempty agent)
    have hc : ofUuid c = true := hshown.characters agent c (huuid ▸ List.mem_cons_self)
    have hhead : ((entries.agent uuid agent).toList ++ rest).head? = some c := by
      unfold MailEntries.agent
      cases entries.known.find? (·.1 == agent) with
      | none =>
          rw [huuid]
          rfl
      | some known =>
          show ((uuid agent ++ " (author " ++ quote known.2 ++ ")").toList ++ rest).head? = _
          rw [String.toList_append, String.toList_append, String.toList_append, huuid]
          rfl
    rw [hsame] at hhead
    have hn : c = 'n' := (Option.some.inj hhead).symm
    rw [hn] at hc
    exact absurd hc (by decide)
  have hagents (agents : List AgentId) : (entries.agents uuid agents).toList =
      if agents.isEmpty then "none".toList
      else ", ".toList.intercalate (agents.map fun agent => (entries.agent uuid agent).toList) := by
    unfold MailEntries.agents
    split
    · rfl
    · rw [String.toList_intercalate, List.map_map]
      rfl
  simp only [hagents]
  exact (agent_reads hshown entries).listed ", ".toList rfl (.inl rfl)
    (fun c hc => ⟨.inr hc, hc ▸ by decide⟩) hword

theorem names_reads : Reads (fun c => c = '\n') fun attachmentNames =>
    (names attachmentNames).toList := by
  have hword (name : String) (rest rest' : List Char) :
      (quote name).toList ++ rest ≠ "none".toList ++ rest' := by
    intro hsame
    unfold quote at hsame
    rw [String.toList_ofList] at hsame
    have hhead : '"' = 'n' := (List.cons.inj hsame).1
    revert hhead
    decide
  have hnames (attachmentNames : List String) : (names attachmentNames).toList =
      if attachmentNames.isEmpty then "none".toList
      else ", ".toList.intercalate (attachmentNames.map fun name => (quote name).toList) := by
    unfold names
    split
    · rfl
    · rw [String.toList_intercalate, List.map_map]
      rfl
  simp only [hnames]
  exact quote_reads.listed ", ".toList rfl trivial (fun c hc => ⟨trivial, hc ▸ by decide⟩) hword

/-- The text of a mail to someone tells all that it shows. -/
theorem text_to {uuid : Nat → String} (hshown : UuidShown uuid) (entries : MailEntries)
    {id id' : EntryId} {sender sender' : AgentId} {author author' : Author}
    {source source' : ConversationId} {recipients recipients' cc cc' : List AgentId}
    {subject subject' body body' : String} {attachmentNames attachmentNames' : List String}
    (hsame : entries.text uuid
        (.To id sender author source recipients cc subject body attachmentNames) =
      entries.text uuid
        (.To id' sender' author' source' recipients' cc' subject' body' attachmentNames')) :
    id = id' ∧ sender = sender' ∧ author = author' ∧ recipients = recipients' ∧ cc = cc' ∧
      subject = subject' ∧ body = body' ∧ attachmentNames = attachmentNames' := by
  have hcopies (rest : List Char) : Ends (fun c => c = '\n') ("\nCc: ".toList ++ rest) :=
    Lib.ends_append rfl (by decide) rest
  have htitle (rest : List Char) : Ends (fun c => c = '\n') ("\nSubject: ".toList ++ rest) :=
    Lib.ends_append rfl (by decide) rest
  have hlists := congrArg String.toList hsame
  unfold text at hlists
  simp only [String.toList_append, List.append_assoc] at hlists
  have hafter := List.append_cancel_left hlists
  obtain ⟨hid, hafter⟩ := uuid_reads hshown _ _ _ _ (Lib.ends_append rfl (by decide) _)
    (Lib.ends_append rfl (by decide) _) hafter
  have hafter := List.append_cancel_left hafter
  obtain ⟨hsender, hafter⟩ := uuid_reads hshown _ _ _ _ (Lib.ends_append rfl (by decide) _)
    (Lib.ends_append rfl (by decide) _) hafter
  have hafter := List.append_cancel_left hafter
  obtain ⟨hauthor, hafter⟩ := quote_reads _ _ _ _ (fun _ _ => trivial) (fun _ _ => trivial) hafter
  have hafter := List.append_cancel_left hafter
  obtain ⟨hrecipients, hafter⟩ := agents_reads hshown entries _ _ _ _
    (hcopies _) (hcopies _) hafter
  have hafter := List.append_cancel_left hafter
  obtain ⟨hcc, hafter⟩ := agents_reads hshown entries _ _ _ _
    (htitle _) (htitle _) hafter
  have hafter := List.append_cancel_left hafter
  obtain ⟨hsubject, hafter⟩ := quote_reads _ _ _ _ (fun _ _ => trivial) (fun _ _ => trivial) hafter
  have hafter := List.append_cancel_left hafter
  obtain ⟨hbody, hafter⟩ := quote_reads _ _ _ _ (fun _ _ => trivial) (fun _ _ => trivial) hafter
  have hnames := names_reads.injective (List.append_cancel_left hafter)
  exact ⟨hid, hsender, hauthor, hrecipients, hcc, hsubject, hbody, hnames⟩

theorem text_cc {uuid : Nat → String} (hshown : UuidShown uuid) (entries : MailEntries)
    {id id' : EntryId} {subject subject' : String}
    (hsame : entries.text uuid (.Cc id subject) = entries.text uuid (.Cc id' subject')) :
    id = id' ∧ subject = subject' := by
  have hlists := congrArg String.toList hsame
  unfold text at hlists
  simp only [String.toList_append, List.append_assoc] at hlists
  have hafter := List.append_cancel_left hlists
  obtain ⟨hid, hafter⟩ := uuid_reads hshown _ _ _ _ (Lib.ends_append rfl (by decide) _)
    (Lib.ends_append rfl (by decide) _) hafter
  exact ⟨hid, quote_reads.injective (List.append_cancel_left hafter)⟩

end MailEntries

/-- Quoting is injective and closed; texts that are built equal were built for mails that show the
same; and the boundary takes each entry that is built for its mail. -/
theorem mail_told {uuid : Nat → String} (hshown : UuidShown uuid) {library : MailLibrary}
    (hlawful : library.Lawful) (entries : MailEntries) :
    Function.Injective quote ∧
    (∀ text, (∀ c ∈ (quote text).toList, isControl c = false) ∧
      ∃ inner, (quote text).toList = '"' :: (inner ++ ['"']) ∧ bareQuotes false inner = 0 ∧
        bareQuotes false (inner ++ ['"']) = 1) ∧
    (∀ block block' id id' sender sender' author author' source source' recipients recipients' cc cc'
      subject subject' body body' attachmentNames attachmentNames' entry entry',
      entries.build uuid library block
        (.To id sender author source recipients cc subject body attachmentNames) = .ok entry →
      entries.build uuid library block'
        (.To id' sender' author' source' recipients' cc' subject' body' attachmentNames') =
          .ok entry' →
      entry.texts = entry'.texts →
        id = id' ∧ sender = sender' ∧ author = author' ∧ recipients = recipients' ∧ cc = cc' ∧
          subject = subject' ∧ body = body' ∧ attachmentNames = attachmentNames') ∧
    (∀ block block' id id' subject subject' entry entry',
      entries.build uuid library block (.Cc id subject) = .ok entry →
      entries.build uuid library block' (.Cc id' subject') = .ok entry' →
      entry.texts = entry'.texts → id = id' ∧ subject = subject') ∧
    ∀ block item entry, entries.build uuid library block item = .ok entry →
      isEntryOf item entry.incoming = true ∧
        ∀ (C : Type) [Conversation C] (ports : Ports MailItem) (host : Host C),
          ports.mailEntry host.mailCalls item = .ok entry.incoming →
            (build ports host (.Mail item)).1 = .ok entry.incoming := by
  refine ⟨fun one other hsame => quote_reads.injective (congrArg String.toList hsame), quote_closed,
    ?_, ?_, ?_⟩
  · intro block block' id id' sender sender' author author' source source' recipients recipients' cc
      cc' subject subject' body body' attachmentNames attachmentNames' entry entry' hentry hentry'
      htexts
    rw [(MailEntries.build_ok hlawful hentry).1, (MailEntries.build_ok hlawful hentry').1] at htexts
    exact MailEntries.text_to hshown entries (List.cons.inj htexts).1
  · intro block block' id id' subject subject' entry entry' hentry hentry' htexts
    rw [(MailEntries.build_ok hlawful hentry).1, (MailEntries.build_ok hlawful hentry').1] at htexts
    exact MailEntries.text_cc hshown entries (List.cons.inj htexts).1
  · intro block item entry hentry
    have hof := (MailEntries.build_ok hlawful hentry).2
    refine ⟨hof, fun C _ ports host hanswer => ?_⟩
    unfold build
    simp only [hanswer, hof, if_true]

theorem isHex_of_mem_padded {id : Nat} {c : Char}
    (hc : c ∈ (Nat.toDigits 16 id).leftpad 32 '0') : isHex c = true := by
  unfold List.leftpad at hc
  rcases List.mem_append.mp hc with hzero | hdigit
  · rw [(List.mem_replicate.mp hzero).2]
    decide
  · exact Lib.isHex_of_mem_toDigits hdigit

/-- The digits of a UUID, without the hyphens. -/
theorem uuidText_digits (id : Nat) :
    (uuidText id).toList.filter isHex = (Nat.toDigits 16 id).leftpad 32 '0' := by
  have hdigits (c : Char) (hc : c ∈ (Nat.toDigits 16 id).leftpad 32 '0') : isHex c = true :=
    isHex_of_mem_padded hc
  unfold uuidText
  generalize (Nat.toDigits 16 id).leftpad 32 '0' = digits at hdigits ⊢
  have htake (n m : Nat) : ((digits.drop n).take m).filter isHex = (digits.drop n).take m :=
    List.filter_eq_self.mpr fun c hc => hdigits c (List.mem_of_mem_drop (List.mem_of_mem_take hc))
  have hfirst : (digits.take 8).filter isHex = digits.take 8 := htake 0 8
  have hlast : (digits.drop 20).filter isHex = digits.drop 20 :=
    List.filter_eq_self.mpr fun c hc => hdigits c (List.mem_of_mem_drop hc)
  have hhyphen (rest : List Char) : ('-' :: rest).filter isHex = rest.filter isHex := rfl
  have hgroup (n : Nat) : (digits.drop n).take 4 ++ digits.drop (n + 4) = digits.drop n := by
    rw [← List.drop_drop, List.take_append_drop]
  rw [String.toList_ofList]
  simp only [List.filter_append, hhyphen, htake, hfirst, hlast]
  rw [hgroup 16, hgroup 12, hgroup 8, List.take_append_drop]

theorem uuidText_shown : UuidShown uuidText where
  characters := by
    intro id c hc
    unfold uuidText at hc
    simp only [String.toList_ofList, List.mem_append, List.mem_cons] at hc
    have hdigit (hmem : c ∈ (Nat.toDigits 16 id).leftpad 32 '0') : ofUuid c = true := by
      unfold ofUuid
      rw [isHex_of_mem_padded hmem]
      rfl
    have htake {n m : Nat} (hmem : c ∈ (((Nat.toDigits 16 id).leftpad 32 '0').drop n).take m) :
        ofUuid c = true := hdigit (List.mem_of_mem_drop (List.mem_of_mem_take hmem))
    rcases hc with hmem | rfl | hmem | rfl | hmem | rfl | hmem | rfl | hmem
    · exact hdigit (List.mem_of_mem_take hmem)
    · decide
    · exact htake hmem
    · decide
    · exact htake hmem
    · decide
    · exact htake hmem
    · decide
    · exact hdigit (List.mem_of_mem_drop hmem)
  nonempty := by
    intro id hnil
    have hdigits := uuidText_digits id
    rw [hnil] at hdigits
    have hlength := congrArg List.length hdigits
    rw [List.length_leftpad] at hlength
    have hnone : (List.filter isHex []).length = 0 := rfl
    omega
  injective := by
    intro id other hsame
    have hvalue (n : Nat) : hexValue ((uuidText n).toList.filter isHex) = n := by
      have hzeros (zeros : Nat) : (List.replicate zeros '0').foldl
          (fun value c => 16 * value + Lib.hexDigit c) 0 = 0 := by
        induction zeros with
        | zero => rfl
        | succ zeros hind => exact hind
      rw [uuidText_digits]
      unfold List.leftpad hexValue
      rw [List.foldl_append, hzeros]
      exact Lib.hexValue_toDigits n
    rw [← hvalue id, hsame, hvalue other]

/-- A library that refuses empty texts. -/
def plainLibrary : MailLibrary where
  textBlock id text := if text.isEmpty then .error "a text is not empty" else .ok ⟨id, text⟩
  agentMail id sender author source blocks := .ok ⟨id, sender, author, source, blocks⟩
  runtimeNotice id text := if text.isEmpty then .error "a text is not empty" else .ok ⟨id, text⟩

theorem plainLibrary_lawful : plainLibrary.Lawful where
  textBlock := by
    intro id text block hblock
    unfold plainLibrary at hblock
    dsimp only at hblock
    split at hblock
    · cases hblock
    · cases hblock
      rfl
  agentMail := by
    intro id sender author source blocks mail hmail
    cases hmail
    rfl
  runtimeNotice := by
    intro id text notice hnotice
    unfold plainLibrary at hnotice
    dsimp only at hnotice
    split at hnotice
    · cases hnotice
    · cases hnotice
      rfl

/-- A body that imitates what follows it is not taken for it. -/
theorem mail_told_forged : ∃ entry entry',
    (MailEntries.mk [(7, "Ann")]).build uuidText plainLibrary (.ok 3)
      (.To 1 7 "Ann" 2 [8] [] "s" "b\"\nAttachments: \"c" []) = .ok entry ∧
    (MailEntries.mk [(7, "Ann")]).build uuidText plainLibrary (.ok 4)
      (.To 1 7 "Ann" 2 [8] [] "s" "b" ["c"]) = .ok entry' ∧ entry.texts ≠ entry'.texts := by
  have hok : ((MailEntries.mk [(7, "Ann")]).build uuidText plainLibrary (.ok 3)
      (.To 1 7 "Ann" 2 [8] [] "s" "b\"\nAttachments: \"c" [])).toBool = true := by decide +kernel
  have hok' : ((MailEntries.mk [(7, "Ann")]).build uuidText plainLibrary (.ok 4)
      (.To 1 7 "Ann" 2 [8] [] "s" "b" ["c"])).toBool = true := by decide +kernel
  cases hentry : (MailEntries.mk [(7, "Ann")]).build uuidText plainLibrary (.ok 3)
      (.To 1 7 "Ann" 2 [8] [] "s" "b\"\nAttachments: \"c" []) with
  | error error =>
      rw [hentry] at hok
      cases hok
  | ok entry =>
      cases hentry' : (MailEntries.mk [(7, "Ann")]).build uuidText plainLibrary (.ok 4)
          (.To 1 7 "Ann" 2 [8] [] "s" "b" ["c"]) with
      | error error =>
          rw [hentry'] at hok'
          cases hok'
      | ok entry' =>
          refine ⟨entry, entry', rfl, rfl, fun hsame => ?_⟩
          have htold := mail_told uuidText_shown plainLibrary_lawful ⟨[(7, "Ann")]⟩
          have hfields := htold.2.2.1 _ _ _ _ _ _ _ _ _ _ _ _ _ _ _ _ _ _ _ _ _ _
            hentry hentry' hsame
          have hnames : [] = ["c"] := hfields.2.2.2.2.2.2.2
          cases hnames

end LlmGraph.Agentic
