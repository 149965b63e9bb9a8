/- digest: What the marks of the round limit are recognised by: the texts that the node writes and no
   others, in every turn that it answered and in no turn that something else answered. -/

import LlmGraph.Lib.Keyed
import LlmGraph.React.PlainMessages
import LlmGraph.React.RoundLimit
import LlmGraph.React.Turns
import Mathlib.Data.List.Basic

set_option autoImplicit false
set_option relaxedAutoImplicit false

namespace LlmGraph.React

open Superstep (State Config GraphError Key Update)

/-- The decimal digits of a number are parsed as that number. -/
theorem parseUsize_toDigits {n : Nat} (hfits : n < 2 ^ 64) :
    parseUsize (Nat.toDigits 10 n) = some n := by
  have hdigits : ∀ c ∈ Nat.toDigits 10 n, c.isDigit = true :=
    fun c hmem => Nat.isDigit_of_mem_toDigits (by decide) (by decide) hmem
  unfold parseUsize
  extract_lets digits value
  have hplain : digits = Nat.toDigits 10 n := by
    unfold digits
    split
    · rename_i signed htext
      have hplus := hdigits '+' (htext ▸ List.mem_cons_self)
      exact absurd hplus (by decide)
    · rfl
  have hvalue : value = n := by
    unfold value
    rw [hplain, Nat.ofDigitChars_ten_toDigits]
  rw [hplain, hvalue, if_neg, if_pos hfits]
  rw [Bool.or_eq_true, not_or, List.isEmpty_iff, Bool.not_eq_true', Bool.not_eq_false,
    List.all_eq_true]
  exact ⟨Nat.toDigits_ne_nil, hdigits⟩

theorem parseUsize_lt {text : List Char} {n : Nat} (hparsed : parseUsize text = some n) :
    n < 2 ^ 64 := by
  unfold parseUsize at hparsed
  extract_lets digits value at hparsed
  split at hparsed
  · cases hparsed
  split at hparsed
  · rename_i hfits
    rw [← Option.some.inj hparsed]
    exact hfits
  · cases hparsed

/-- The number that stands between a head and a tail is found there. -/
theorem numberBetween_written (head tail : String) {n : Nat} (hfits : n < 2 ^ 64) :
    numberBetween head tail (head ++ toString n ++ tail) = some n := by
  have hfront : head.toList.isPrefixOf? (head ++ toString n ++ tail).toList =
      some (Nat.toDigits 10 n ++ tail.toList) := by
    rw [List.isPrefixOf?_eq_some_iff_append_eq, String.toList_append, String.toList_append,
      Nat.toString_eq_repr, Nat.toList_repr, List.append_assoc]
  have hsuffix : tail.toList.isSuffixOf? (Nat.toDigits 10 n ++ tail.toList) =
      some (Nat.toDigits 10 n) := List.isSuffixOf?_eq_some_iff_append_eq.mpr rfl
  unfold numberBetween
  rw [hfront, Option.bind_some, hsuffix, Option.bind_some, parseUsize_toDigits hfits]

theorem numberBetween_lt {head tail text : String} {n : Nat}
    (hfound : numberBetween head tail text = some n) : n < 2 ^ 64 := by
  obtain ⟨digits, -, hparsed⟩ := Option.bind_eq_some_iff.mp hfound
  exact parseUsize_lt hparsed

theorem marked_iff {head tail text : String} :
    ((numberBetween head tail text).any fun max => head ++ toString max ++ tail == text) = true ↔
      ∃ n, n < 2 ^ 64 ∧ text = head ++ toString n ++ tail := by
  constructor
  · intro hany
    cases hfound : numberBetween head tail text with
    | none =>
        rw [hfound] at hany
        cases hany
    | some n =>
        rw [hfound] at hany
        have hsame : (head ++ toString n ++ tail == text) = true := hany
        exact ⟨n, numberBetween_lt hfound, (beq_iff_eq.mp hsame).symm⟩
  · rintro ⟨n, hfits, rfl⟩
    rw [numberBetween_written head tail hfits]
    exact beq_self_eq_true _

theorem isClosing_iff {text : String} :
    isClosing text = true ↔ ∃ n, n < 2 ^ 64 ∧ text = closing n := marked_iff

theorem isRefusal_iff {result : ToolResult} : isRefusal result = true ↔
    result.isError = true ∧ ∃ n, n < 2 ^ 64 ∧ result.content = [.Text (refusal n)] := by
  unfold isRefusal
  rw [Bool.and_eq_true]
  refine and_congr_right fun _ => ?_
  split
  · rename_i text hcontent
    have hmarked : ((numberBetween refusalHead refusalTail text).any fun max =>
        refusal max == text) = true ↔ ∃ n, n < 2 ^ 64 ∧ text = refusal n := marked_iff
    rw [hmarked, hcontent]
    simp only [List.cons.injEq, ToolResultBlock.Text.injEq, and_true]
  · rename_i hother
    constructor
    · intro hfalse
      cases hfalse
    · rintro ⟨n, -, hcontent⟩
      exact absurd hcontent (hother _)

/-- The number of a mark is unique. -/
theorem marked_injective (head tail : String) :
    Function.Injective fun n : Nat => head ++ toString n ++ tail := by
  intro n m hsame
  have hlists := congrArg String.toList hsame
  simp only [String.toList_append] at hlists
  have hdigits := List.append_cancel_left (List.append_cancel_right hlists)
  rw [Nat.toString_eq_repr, Nat.toString_eq_repr, Nat.toList_repr, Nat.toList_repr] at hdigits
  calc
    n = Nat.ofDigitChars 10 (Nat.toDigits 10 n) 0 := Nat.ofDigitChars_ten_toDigits.symm
    _ = Nat.ofDigitChars 10 (Nat.toDigits 10 m) 0 := by rw [hdigits]
    _ = m := Nat.ofDigitChars_ten_toDigits

theorem closing_ne_refusal (n m : Nat) : closing n ≠ refusal m := by
  intro hsame
  have hlast (text tail : String) {last : List Char} (htail : tail.toList.reverse.take 2 = last)
      (hlong : 2 ≤ tail.toList.length) : (text ++ tail).toList.reverse.take 2 = last := by
    rw [String.toList_append, List.reverse_append, List.take_append_of_le_length, htail]
    rwa [List.length_reverse]
  have hclosing : (closing n).toList.reverse.take 2 = ['.', 'y'] :=
    hlast _ closingTail rfl (by decide)
  have hrefusal : (refusal m).toList.reverse.take 2 = ['.', 's'] :=
    hlast _ refusalTail rfl (by decide)
  rw [hsame, hrefusal] at hclosing
  exact absurd hclosing (by decide)

theorem refusalsOnly_of_all {results : List ToolResult} (hsome : results ≠ [])
    (hall : ∀ result ∈ results, isRefusal result = true) : refusalsOnly results = true := by
  unfold refusalsOnly
  rw [Bool.and_eq_true, List.all_eq_true, Bool.not_eq_true', List.isEmpty_eq_false_iff]
  exact ⟨hsome, hall⟩

theorem refusalsOnly_other {results : List ToolResult} {result : ToolResult}
    (hmem : result ∈ results) (hother : isRefusal result = false) :
    refusalsOnly results = false := by
  unfold refusalsOnly
  rw [Bool.and_eq_false_iff]
  refine .inr (List.all_eq_false.mpr ⟨result, hmem, ?_⟩)
  rw [hother]
  exact Bool.false_ne_true

/-- A round of refusals is recognised under each limit up to the number of rounds before it. -/
theorem reachedIn_of_round {turn : Turn} {before after : List (List ToolResult)}
    {results : List ToolResult} {limit : Nat} (hrounds : turn.rounds = before ++ results :: after)
    (hlimit : limit ≤ before.length) (hrefusals : refusalsOnly results = true) :
    reachedIn turn limit = true := by
  unfold reachedIn
  rw [hrounds, List.drop_append_of_le_length hlimit, List.any_eq_true]
  exact ⟨results, List.mem_append_right _ List.mem_cons_self, hrefusals⟩

theorem reachedIn_other {turn : Turn} {limit : Nat}
    (hother : ∀ index results, limit ≤ index → turn.rounds[index]? = some results →
      ∃ result ∈ results, isRefusal result = false) : reachedIn turn limit = false := by
  unfold reachedIn
  rw [List.any_eq_false]
  intro results hresults
  obtain ⟨index, hindex⟩ := List.mem_iff_getElem?.mp hresults
  rw [List.getElem?_drop] at hindex
  obtain ⟨result, hmem, hnot⟩ := hother _ _ (Nat.le_add_right _ _) hindex
  rw [refusalsOnly_other hmem hnot]
  exact Bool.false_ne_true

theorem cutByLimit_other {turn : Turn} {results : List ToolResult} {result : ToolResult}
    (hlast : turn.rounds.getLast? = some results) (hmem : result ∈ results)
    (hother : isRefusal result = false) : cutByLimit turn = false := by
  unfold cutByLimit
  split
  · rename_i step results' front hitems
    have hrounds : turn.rounds = front.reverse.filterMap TurnItem.results? ++ [results'] := by
      unfold Turn.rounds
      rw [← List.reverse_reverse turn.items, hitems, List.reverse_cons, List.reverse_cons,
        List.filterMap_append, List.filterMap_append]
      exact List.append_nil _
    rw [hrounds, List.getLast?_concat] at hlast
    cases hlast
    rw [refusalsOnly_other hmem hother, Bool.and_false]
  · rfl

/-- The results that answer a reply end up in one item, with those that the reply has already. -/
theorem answered_items {turn : Turn} {pending : List ToolCallId} {answers : List ToolResult}
    (hawaits : turn.awaits = .AwaitingToolResults pending) (hsome : answers ≠ []) :
    ∃ front so, (turn.withResults answers).items = front ++ [.ToolResults (so ++ answers)] ∧
      ∀ result ∈ so, ∃ results, turn.items.getLast? = some (.ToolResults results) ∧
        result ∈ results := by
  obtain ⟨reply, so, hreplied, -⟩ := Turn.replied_of_awaits hawaits
  cases hreplied with
  | @fresh front hitems hawaiting =>
      refine ⟨front ++ [.Step reply], [], ?_, fun _ hmem => by cases hmem⟩
      rw [Turn.items_withResults_step hitems hsome, List.append_assoc]
      rfl
  | @partly front so hitems hshort =>
      have hback : turn.items = (front ++ [.Step reply]) ++ [.ToolResults so] := by
        rw [hitems, List.append_assoc]
        rfl
      refine ⟨front ++ [.Step reply], so, Turn.items_withResults_results hback answers,
        fun result hmem => ⟨so, ?_, hmem⟩⟩
      rw [hback, List.getLast?_concat]

/-- A turn that ends with refusals, and with the closing step of a limit when it is closed, is
recognised whatever comes after. -/
theorem recognised {turn : Turn} {front closes : List TurnItem} {results : List ToolResult}
    (hitems : turn.items = front ++ [.ToolResults results] ++ closes)
    (hclose : ∀ item ∈ closes, item.results? = none) (hrefusals : refusalsOnly results = true)
    (later : List TurnItem) {limit : Nat} (hlimit : limit < turn.rounds.length) :
    reachedIn { turn with items := turn.items ++ later } limit = true := by
  have hnone : closes.filterMap TurnItem.results? = [] := List.filterMap_eq_nil_iff.mpr hclose
  have hrounds : turn.rounds = front.filterMap TurnItem.results? ++ [results] := by
    unfold Turn.rounds
    rw [hitems, List.filterMap_append, List.filterMap_append, hnone, List.append_nil]
    rfl
  have hall : Turn.rounds { turn with items := turn.items ++ later } =
      front.filterMap TurnItem.results? ++ results :: later.filterMap TurnItem.results? := by
    have hsplit : Turn.rounds { turn with items := turn.items ++ later } =
        turn.rounds ++ later.filterMap TurnItem.results? := List.filterMap_append
    rw [hsplit, hrounds, List.append_assoc]
    rfl
  refine reachedIn_of_round hall ?_ hrefusals
  rw [hrounds, List.length_append, List.length_singleton] at hlimit
  omega

/-- The step that closes a turn under a limit. -/
def closingStep (max : Nat) : Step := ⟨[.Text (closing max)], .Other limitReached, none, none⟩

theorem cut {turn : Turn} {front : List TurnItem} {results : List ToolResult} {max : Nat}
    (hfits : max < 2 ^ 64) (hrefusals : refusalsOnly results = true)
    (hitems : turn.items = front ++ [.ToolResults results] ++
      [.Step (closingStep max)]) :
    cutByLimit turn = true := by
  have hreverse : turn.items.reverse =
      .Step (closingStep max) :: .ToolResults results :: front.reverse := by
    rw [hitems, List.reverse_append, List.reverse_append]
    rfl
  have hclosing : isClosing (closing max) = true := isClosing_iff.mpr ⟨max, hfits, rfl⟩
  unfold cutByLimit
  rw [hreverse]
  simp only [closingStep, hclosing, hrefusals, Option.isNone_none, beq_self_eq_true, Bool.and_self]

section Applied

variable {C : Type} [Messages C] {state next : State C} {key : Key}

theorem conversation_ok {c : C} : state.conversation key = .ok c ↔
    (state.kindOf key).isSome = true ∧ state.values key = some (.conversation c) := by
  unfold State.conversation State.value
  constructor
  · intro hconversation
    split at hconversation
    · cases hconversation
    · rename_i hvalue
      cases hconversation
      split at hvalue
      · cases hvalue
      · rename_i kind hkind
        split at hvalue
        · cases hvalue
        · rename_i hheld
          cases hvalue
          exact ⟨by rw [hkind]; rfl, hheld⟩
    · cases hconversation
  · rintro ⟨hkind, hheld⟩
    obtain ⟨kind, hkind⟩ := Option.isSome_iff_exists.mp hkind
    rw [hkind, hheld]

/-- A push to the conversation of a key. -/
theorem changeConversation_ok {c : C} {push : C → Except MessageError C}
    (hconversation : state.conversation key = .ok c)
    (hchanged : state.changeConversation key push = .ok next) :
    ∃ pushed, push c = .ok pushed ∧ next.conversation key = .ok pushed := by
  obtain ⟨hkind, hheld⟩ := conversation_ok.mp hconversation
  unfold State.changeConversation at hchanged
  split at hchanged
  · cases hchanged
  rw [hheld] at hchanged
  dsimp only at hchanged
  split at hchanged
  · rename_i pushed hpushed
    cases hchanged
    refine ⟨pushed, hpushed, conversation_ok.mpr ⟨hkind, ?_⟩⟩
    exact Function.update_self key _ _
  · cases hchanged

/-- Results that are pushed to a turn go to it, wherever it stands. -/
theorem pushResults_ok (hlawful : Messages.Lawful C) {c : C} {front back : List Entry}
    {turn : Turn} {results : List ToolResult} (hconversation : state.conversation key = .ok c)
    (hentries : entries c = front ++ .Turn turn :: back)
    (happlied : (results.map (Update.pushResult (C := C) key turn.id)).foldlM State.applyOne state =
      .ok next) :
    ∃ c', next.conversation key = .ok c' ∧
      entries c' = front ++ .Turn (turn.withResults results) :: back := by
  induction results generalizing state c turn with
  | nil =>
      cases happlied
      exact ⟨c, hconversation, hentries⟩
  | cons result rest hind =>
      rw [List.map_cons, List.foldlM_cons] at happlied
      cases hfirst : state.applyOne (.pushResult key turn.id result) with
      | error error =>
          rw [hfirst] at happlied
          cases happlied
      | ok middle =>
          rw [hfirst] at happlied
          obtain ⟨pushed, hpushed, hmiddle⟩ := changeConversation_ok hconversation hfirst
          obtain ⟨front', turn', back', hbefore, hid, hafter⟩ :=
            hlawful.pushResult c pushed turn.id result hpushed
          have hkey : Entry.id (.Turn turn) = Entry.id (.Turn turn') := hid.symm
          obtain ⟨rfl, hsame, rfl⟩ :=
            Lib.split_of_key (hlawful.distinct c) hentries hbefore hkey
          cases hsame
          have hrest := hind hmiddle hafter
          rw [Turn.addResult_id] at hrest
          exact hrest happlied

theorem pushStep_ok (hlawful : Messages.Lawful C) {c : C} {front back : List Entry} {turn : Turn}
    {step : Step} (hconversation : state.conversation key = .ok c)
    (hentries : entries c = front ++ .Turn turn :: back)
    (happlied : state.applyOne (.pushStep key turn.id step) = .ok next) :
    ∃ c', next.conversation key = .ok c' ∧
      entries c' = front ++ .Turn (turn.addStep step) :: back := by
  obtain ⟨pushed, hpushed, hnext⟩ := changeConversation_ok hconversation happlied
  obtain ⟨front', turn', back', hbefore, hid, hafter⟩ :=
    hlawful.pushStep c pushed turn.id step hpushed
  have hkey : Entry.id (.Turn turn) = Entry.id (.Turn turn') := hid.symm
  obtain ⟨rfl, hsame, rfl⟩ := Lib.split_of_key (hlawful.distinct c) hentries hbefore hkey
  cases hsame
  exact ⟨pushed, hnext, hafter⟩

/-- A flag is set beside the conversation, or in its place. -/
theorem setFlag_ok {flag : Key} {c : C} (hconversation : state.conversation key = .ok c)
    (happlied : state.applyOne (.set flag (.bool true)) = .ok next) :
    next.conversation key = .ok c ∨ next.values key = some (.bool true) := by
  obtain ⟨hkind, hheld⟩ := conversation_ok.mp hconversation
  have hderived : state.derive flag (.bool true) = .ok next := happlied
  unfold State.derive at hderived
  split at hderived
  · cases hderived
  split at hderived
  · cases hderived
    by_cases hsame : key = flag
    · refine .inr ?_
      rw [hsame]
      exact Function.update_self flag _ _
    · refine .inl (conversation_ok.mpr ⟨hkind, ?_⟩)
      rw [← hheld]
      exact Function.update_of_ne hsame _ _
  · cases hderived

/-- An author's last turn stands before entries that are not the author's. -/
theorem lastTurnByAuthor_iff {c : C} {author : Author} {turn : Turn} :
    lastTurnByAuthor c author = some turn ↔ turn.author = some author ∧
      ∃ front back, entries c = front ++ .Turn turn :: back ∧
        ∀ entry ∈ back, turnBy author entry = none := by
  unfold lastTurnByAuthor
  rw [List.findSome?_eq_some_iff]
  constructor
  · rintro ⟨before, entry, after, hreverse, hentry, hnone⟩
    cases entry with
    | UserInput input => cases hentry
    | Turn found =>
        have hfound : (if found.author = some author then some found else none) = some turn :=
          hentry
        split at hfound
        · rename_i hauthor
          cases hfound
          refine ⟨hauthor, after.reverse, before.reverse, ?_, fun other hother => ?_⟩
          · rw [← List.reverse_reverse (entries c), hreverse, List.reverse_append,
              List.reverse_cons, List.append_assoc]
            rfl
          · exact hnone other (List.mem_reverse.mp hother)
        · cases hfound
  · rintro ⟨hauthor, front, back, hentries, hnone⟩
    refine ⟨back.reverse, .Turn turn, front.reverse, ?_, if_pos hauthor, fun other hother => ?_⟩
    · rw [hentries, List.reverse_append, List.reverse_cons, List.append_assoc]
      rfl
    · exact hnone other (List.mem_reverse.mp hother)

/-- What the node gives: an answer to each pending call, the flag, and the closing step with
`ends`. -/
theorem LimitNode.run_ok (hlawful : Messages.Lawful C) {node : LimitNode} {config : Config C} {c : C}
    {turn : Turn} {max : Nat} {updates : List (Update C)}
    (hmax : node.maxRounds.resolve config = .ok max)
    (hconversation : state.conversation node.key = .ok c)
    (hturn : lastTurnByAuthor c node.author = some turn)
    (hrun : node.run config state = .ok updates) :
    updates = ((turn.pending C).map (answer (refusal max))).map
        (Update.pushResult (C := C) node.key turn.id) ++
      (.set node.flag (.bool true) ::
        if node.ends then [.pushStep node.key turn.id (closingStep max)] else []) := by
  have hpending : pendingCalls state node.key node.author = .ok (turn.pending C) := by
    unfold pendingCalls
    rw [hconversation]
    dsimp only
    rw [hturn]
  unfold run at hrun
  rw [hmax] at hrun
  dsimp only at hrun
  rw [hconversation] at hrun
  dsimp only at hrun
  rw [hturn, hpending] at hrun
  dsimp only at hrun
  split at hrun
  · cases hrun
  · cases hrun
  · cases hrun
  · rename_i text calls step htext hcalls hcloses
    cases hcalls
    cases hlawful.newText _ _ htext
    have hstep : step.toList.map (Update.pushStep (C := C) node.key turn.id) =
        if node.ends then [.pushStep node.key turn.id (closingStep max)] else [] := by
      unfold closes at hcloses
      split at hcloses
      · rename_i hends
        rw [if_pos hends]
        split at hcloses
        · cases hcloses
        rename_i text hclosing
        cases hlawful.newText _ _ hclosing
        split at hcloses
        · cases hcloses
        rename_i made hmade
        cases hlawful.newStep _ _ _ hmade
        cases hcloses
        rfl
      · rename_i hends
        cases hcloses
        rw [if_neg hends]
        rfl
    rw [← hstep, ← Except.ok.inj hrun, List.map_map, List.append_assoc]
    rfl

/-- The turn that the node answers and closes, in the conversation after its updates. -/
theorem LimitNode.answered (hlawful : Messages.Lawful C) {node : LimitNode} {config : Config C}
    {c c' : C} {turn : Turn} {max : Nat} {updates : List (Update C)}
    (hmax : node.maxRounds.resolve config = .ok max)
    (hconversation : state.conversation node.key = .ok c)
    (hturn : lastTurnByAuthor c node.author = some turn)
    (hrun : node.run config state = .ok updates) (happlied : state.applyBatch updates = .ok next)
    (hnext : next.conversation node.key = .ok c') :
    ∃ turn', lastTurnByAuthor c' node.author = some turn' ∧
      turn'.items = (turn.withResults ((turn.pending C).map (answer (refusal max)))).items ++
        if node.ends then [.Step (closingStep max)] else [] := by
  obtain ⟨hauthor, front, back, hentries, hnone⟩ := lastTurnByAuthor_iff.mp hturn
  cases run_ok hlawful hmax hconversation hturn hrun
  unfold State.applyBatch at happlied
  split at happlied
  · cases happlied
  rw [List.foldlM_append] at happlied
  cases hresults : (((turn.pending C).map (answer (refusal max))).map
      (Update.pushResult (C := C) node.key turn.id)).foldlM State.applyOne state with
  | error error =>
      rw [hresults] at happlied
      cases happlied
  | ok middle =>
      rw [hresults] at happlied
      obtain ⟨c₁, hmiddle, hentries₁⟩ := pushResults_ok hlawful hconversation hentries hresults
      have hafter : (Update.set node.flag (.bool true) ::
          if node.ends then [.pushStep node.key turn.id (closingStep max)] else []).foldlM
            State.applyOne middle = .ok next := happlied
      rw [List.foldlM_cons] at hafter
      cases hset : middle.applyOne (.set node.flag (.bool true)) with
      | error error =>
          rw [hset] at hafter
          cases hafter
      | ok flagged =>
          rw [hset] at hafter
          have hclosed : (if node.ends then
              [Update.pushStep (C := C) node.key turn.id (closingStep max)] else []).foldlM
                State.applyOne flagged = .ok next := hafter
          have hid : (turn.withResults ((turn.pending C).map (answer (refusal max)))).id = turn.id :=
            Turn.withResults_id _ _
          have hauthor' : (turn.withResults ((turn.pending C).map (answer (refusal max)))).author =
              some node.author := (Turn.withResults_author _ _).trans hauthor
          split at hclosed
          · rename_i hends
            rw [if_pos hends]
            rw [List.foldlM_cons] at hclosed
            cases hstep : flagged.applyOne
                (.pushStep (C := C) node.key turn.id (closingStep max)) with
            | error error =>
                rw [hstep] at hclosed
                cases hclosed
            | ok last =>
                rw [hstep] at hclosed
                cases hclosed
                rcases setFlag_ok hmiddle hset with hflagged | hflag
                · rw [← hid] at hstep
                  obtain ⟨c₂, hlast, hentries₂⟩ := pushStep_ok hlawful hflagged hentries₁ hstep
                  rw [hnext] at hlast
                  cases hlast
                  have hlast : lastTurnByAuthor c' node.author = some (Turn.addStep _ _) :=
                    lastTurnByAuthor_iff.mpr ⟨hauthor', front, back, hentries₂, hnone⟩
                  exact ⟨_, hlast, rfl⟩
                · have hchanged : flagged.changeConversation node.key _ = .ok next := hstep
                  unfold State.changeConversation at hchanged
                  rw [hflag] at hchanged
                  split at hchanged
                  · cases hchanged
                  · cases hchanged
          · rename_i hends
            rw [if_neg hends, List.append_nil]
            cases hclosed
            rcases setFlag_ok hmiddle hset with hflagged | hflag
            · rw [hnext] at hflagged
              cases hflagged
              exact ⟨_, lastTurnByAuthor_iff.mpr ⟨hauthor', front, back, hentries₁, hnone⟩, rfl⟩
            · have hheld := (conversation_ok.mp hnext).2
              rw [hflag] at hheld
              cases hheld

end Applied

/-- The marks are the texts that the limit node writes and no others; a turn whose last reply the node
alone answered is recognised under each limit up to the number of rounds before its answers, and one
that it closed is known as cut; and a turn with another result in each round past a limit, or in its
last round, is not. -/
theorem limit_marks {C : Type} [Messages C] (hlawful : Messages.Lawful C) :
    (∀ text, isClosing text = true ↔ ∃ n, n < 2 ^ 64 ∧ text = closing n) ∧
    (∀ result, isRefusal result = true ↔
      result.isError = true ∧ ∃ n, n < 2 ^ 64 ∧ result.content = [.Text (refusal n)]) ∧
    Function.Injective closing ∧ Function.Injective refusal ∧ (∀ n m, closing n ≠ refusal m) ∧
    (∀ (node : LimitNode) (config : Config C) (state next : State C) (c c' : C) (turn : Turn)
      (max : Nat) (updates : List (Update C)),
      node.maxRounds.resolve config = .ok max → max < 2 ^ 64 →
      state.conversation node.key = .ok c → lastTurnByAuthor c node.author = some turn →
      turn.pending C ≠ [] →
      (∀ results, turn.items.getLast? = some (.ToolResults results) →
        ∀ result ∈ results, isRefusal result = true) →
      node.run config state = .ok updates → state.applyBatch updates = .ok next →
      next.conversation node.key = .ok c' →
        ∃ turn', lastTurnByAuthor c' node.author = some turn' ∧
          (∀ later limit, limit < turn'.rounds.length →
            reachedIn { turn' with items := turn'.items ++ later } limit = true) ∧
          (node.ends = true → cutByLimit turn' = true)) ∧
    (∀ (turn : Turn) (limit : Nat),
      (∀ index results, limit ≤ index → turn.rounds[index]? = some results →
        ∃ result ∈ results, ¬(result.isError = true ∧
          ∃ n, n < 2 ^ 64 ∧ result.content = [.Text (refusal n)])) →
      reachedIn turn limit = false) ∧
    ∀ (turn : Turn) (results : List ToolResult) (result : ToolResult),
      turn.rounds.getLast? = some results → result ∈ results →
      ¬(result.isError = true ∧ ∃ n, n < 2 ^ 64 ∧ result.content = [.Text (refusal n)]) →
      cutByLimit turn = false := by
  have hother {result : ToolResult} (hnot : ¬(result.isError = true ∧
      ∃ n, n < 2 ^ 64 ∧ result.content = [.Text (refusal n)])) : isRefusal result = false := by
    rwa [← isRefusal_iff, Bool.not_eq_true] at hnot
  refine ⟨fun text => isClosing_iff, fun result => isRefusal_iff, marked_injective _ _,
    marked_injective _ _, closing_ne_refusal, ?_, ?_, ?_⟩
  · intro node config state next c c' turn max updates hmax hfits hconversation hturn hpending hso
      hrun happlied hnext
    obtain ⟨turn', hturn', hitems⟩ :=
      node.answered hlawful hmax hconversation hturn hrun happlied hnext
    have hsome : (turn.pending C).map (LimitNode.answer (refusal max)) ≠ [] :=
      fun hnil => hpending (List.map_eq_nil_iff.mp hnil)
    have hawaits : ∃ pending, turn.awaits = .AwaitingToolResults pending := by
      unfold Turn.pending at hpending
      rw [hlawful.state] at hpending
      split at hpending
      · exact ⟨_, by assumption⟩
      · exact absurd rfl hpending
    obtain ⟨pending, hawaits⟩ := hawaits
    obtain ⟨front, so, hanswered, hbefore⟩ := answered_items hawaits hsome
    have hrefusals : refusalsOnly (so ++ (turn.pending C).map (LimitNode.answer (refusal max))) =
        true := by
      refine refusalsOnly_of_all (List.append_ne_nil_of_right_ne_nil _ hsome) fun result hmem => ?_
      rcases List.mem_append.mp hmem with hearlier | hanswer
      · obtain ⟨results, hlast, hheld⟩ := hbefore result hearlier
        exact hso results hlast result hheld
      · obtain ⟨call, -, rfl⟩ := List.mem_map.mp hanswer
        exact isRefusal_iff.mpr ⟨rfl, max, hfits, rfl⟩
    rw [hanswered] at hitems
    refine ⟨turn', hturn', fun later limit hlimit => ?_, fun hends => ?_⟩
    · refine recognised hitems (fun item hitem => ?_) hrefusals later hlimit
      split at hitem
      · rw [List.mem_singleton.mp hitem]
        rfl
      · cases hitem
    · rw [if_pos hends] at hitems
      exact cut hfits hrefusals hitems
  · intro turn limit hall
    refine reachedIn_other fun index results hindex hresults => ?_
    obtain ⟨result, hmem, hnot⟩ := hall index results hindex hresults
    exact ⟨result, hmem, hother hnot⟩
  · intro turn results result hlast hmem hnot
    exact cutByLimit_other hlast hmem (hother hnot)

/-- A conversation whose one turn calls a tool twice. -/
def calling : PlainMessages where
  entries := [.UserInput ⟨"i", "go"⟩, .Turn ⟨"t", some ⟨"a", "Ann"⟩,
    [.Step ⟨[.ToolCall ⟨"c1", "look", ""⟩, .ToolCall ⟨"c2", "look", ""⟩], .AwaitingToolResults,
      none, none⟩]⟩]
  sound := by decide

def callingState : State PlainMessages where
  schema := ⟨[("conversation", .conversation), ("limited", .bool)], [], []⟩
  values key := if key = "conversation" then some (.conversation calling) else none

def endingNode : LimitNode := ⟨"conversation", ⟨"a", "Ann"⟩, .fixed 3 (by decide), "limited", true⟩

/-- A turn that is cut under a limit of three, in its first round, is known as cut. -/
theorem limit_marks_cut : ∃ updates next c' turn',
    endingNode.run ⟨[], fun _ => none⟩ callingState = .ok updates ∧
      callingState.applyBatch updates = .ok next ∧ next.conversation "conversation" = .ok c' ∧
      lastTurnByAuthor c' ⟨"a", "Ann"⟩ = some turn' ∧ cutByLimit turn' = true := by
  have hok : ((endingNode.run ⟨[], fun _ => none⟩ callingState).bind fun updates =>
      (callingState.applyBatch updates).bind fun next =>
        next.conversation "conversation").toBool = true := by decide +kernel
  cases hrun : endingNode.run ⟨[], fun _ => none⟩ callingState with
  | error error =>
      rw [hrun] at hok
      cases hok
  | ok updates =>
      rw [hrun] at hok
      cases happlied : callingState.applyBatch updates with
      | error error =>
          replace hok : ((callingState.applyBatch updates).bind fun next =>
            next.conversation "conversation").toBool = true := hok
          rw [happlied] at hok
          cases hok
      | ok next =>
          replace hok : ((callingState.applyBatch updates).bind fun next =>
            next.conversation "conversation").toBool = true := hok
          rw [happlied] at hok
          cases hnext : next.conversation "conversation" with
          | error error =>
              replace hok : (next.conversation "conversation").toBool = true := hok
              rw [hnext] at hok
              cases hok
          | ok c' =>
              have hmarks := (limit_marks PlainMessages.lawful).2.2.2.2.2.1 endingNode
                ⟨[], fun _ => none⟩ callingState next calling c' _ 3 updates rfl (by decide) rfl rfl
                (by decide) (fun results hlast => by cases hlast) hrun happlied hnext
              obtain ⟨turn', hturn', -, hcut⟩ := hmarks
              exact ⟨updates, next, c', turn', rfl, happlied, hnext, hturn', hcut rfl⟩

end LlmGraph.React
