/- digest: What the nodes of an agent read in its conversation: the author's last turn, the calls it
   awaits results for, and the enabled tools. -/

import LlmGraph.React.Messages

set_option autoImplicit false
set_option relaxedAutoImplicit false

namespace LlmGraph.React

open Superstep (State Config Value GraphError Key NodeId)

variable {C : Type} [Messages C]

/-- The turn of an entry that an author wrote. -/
def turnBy (author : Author) : Entry → Option Turn
  | .Turn turn => if turn.author = some author then some turn else none
  | .UserInput _ => none

/-- The last turn of an author. -/
def lastTurnByAuthor (c : C) (author : Author) : Option Turn :=
  (entries c).reverse.findSome? (turnBy author)

def lastTurnState (c : C) (author : Author) : Option TurnState :=
  (lastTurnByAuthor c author).map (Messages.state C)

/-- The last step of a turn. -/
def finalStep (turn : Turn) : Option Step := turn.items.reverse.findSome? TurnItem.step?

/-- The calls of a turn that it awaits results for, in call order. -/
def Turn.pending (C : Type) [Messages C] (turn : Turn) : List ToolCall :=
  match Messages.state C turn with
  | .AwaitingToolResults pending => turn.toolCalls.filter fun call => pending.contains call.id
  | _ => []

/-- The pending calls of the author's last turn, none without a turn. -/
def pendingCalls (state : State C) (key : Key) (author : Author) :
    Except (GraphError C) (List ToolCall) :=
  match state.conversation key with
  | .error error => .error error
  | .ok conversation =>
      match lastTurnByAuthor conversation author with
      | none => .ok []
      | some turn => .ok (turn.pending C)

/-- The tool names that an `enabled` key holds. -/
def enabledNames (state : State C) (key : Key) : Except (GraphError C) (List ToolName) :=
  match state.list key with
  | .error error => .error error
  | .ok items => .ok (items.filterMap fun
      | .str name => some name
      | _ => none)

end LlmGraph.React
