import LingoSource.Proofs.Condition.Scan
import LingoSource.Proofs.Program.Block

/-!
The statements of a program while its conditions are recovered. The recovery goes through a list
several times: the body of a loop is treated whenever a list around it is, and the parts of a branch
once more when the branch is made. One time through a list does not make all branches: behind a
branch without a second part whose first part ends with an exit, the scan takes the exit for a jump
over a second part and finds no more conditions. So a list falls into segments, each ended by such a
branch, and each time through the list makes the branches of one more segment.
-/
set_option autoImplicit false

namespace LingoSource

/-- Which of the last two statements of a list are exits already: the recovery makes an exit of a
jump out of the loop in front of the last statement of a part, and of one at the end of a part. -/
structure Placed where
  last : Bool := false
  next : Bool := false

def Placed.before (p : Placed) : (count : Nat) → Placed
  | 0 => p
  | 1 => { last := p.next }
  | _ => {}

def settleLast (statements : List Statement) : List Statement :=
  match Condition.lastJump? statements with
  | some (jump, _) => statements.dropLast ++ [⟨jump.position, .exitLoop jump.position⟩]
  | none => statements

namespace Block

mutual

def flat : Block → Nat
  | ifThen _ thenPart => 1 + flatAll thenPart
  | ifElse _ thenPart elsePart => 1 + flatAll thenPart + 1 + flatAll elsePart
  | counted .. => 2
  | _ => 1

def flatAll : List Block → Nat
  | [] => 0
  | b :: rest => b.flat + flatAll rest

end

mutual

/-- Whether the last statement of the code is an exit, which may end parts of branches as well. -/
def endsWithExit : Block → Bool
  | exitLoop => true
  | ifThen _ thenPart => endsWithExitAll thenPart
  | ifElse _ _ elsePart => endsWithExitAll elsePart
  | _ => false

def endsWithExitAll : List Block → Bool
  | [] => false
  | b :: rest => if rest.isEmpty then b.endsWithExit else endsWithExitAll rest

end

/-- Whether a block ends its segment. If its exit stands in front of the last statement of a part, it
is placed before the scan can mistake it. -/
def endsSegment (next : Bool) (rest : List Block) : Block → Bool
  | ifThen _ thenPart => endsWithExitAll thenPart && !(next && flatAll rest == 1)
  | _ => false

def nextSegment (next : Bool) (segment : Nat) (b : Block) (rest : List Block) : Nat :=
  if b.endsSegment next rest then segment + 1 else segment

def testStatement (visits offset : Nat) (condition : Node) (behind : Nat) : Statement :=
  match visits with
  | 0 => ⟨offset, .jumpUnless offset condition behind⟩
  | _ => ⟨offset, .branch offset (.unary offset .not condition) [⟨offset, .exitLoop offset⟩] []⟩

def stepStatement (s : Scope) (offset index : Nat) (up : Bool) : Statement :=
  ⟨offset + 5, .assign (offset + 5) (s.localNode index)
    (.binary (offset + 4) .add ((Push.byte (increment up)).node offset) (s.localNode index))⟩

def loopStatement (start stop : Nat) (body : List Statement) : Statement :=
  ⟨stop, .loop stop start stop .whileTrue (.leaf .constant "TRUE" start) body⟩

mutual

/-- The statements of a block at an offset whose exits go to `behind`. The list that it stands in has
been gone through `passes` times, after its loops had been visited `earlier` times; by now these have
been visited `visits` times. -/
def state (s : Scope) (behind : Nat) (p : Placed) (earlier passes visits segment offset : Nat) :
    Block → List Statement
  | call name => [⟨offset + 2, .call (offset + 2) (s.name name) .argListNoRet [] false⟩]
  | exitLoop => [⟨offset, if p.last then .exitLoop offset else .jump offset behind⟩]
  | ifThen condition thenPart =>
    let head := offset + condition.size
    if segment ≤ passes then
      [⟨head, .branch head (condition.node offset)
        (settleLast (stateAll s behind ⟨p.last, true⟩ (earlier + segment) 1 (earlier + segment + 1) 1
          (head + 3) thenPart)) []⟩]
    else
      ⟨head, .jumpUnless head (condition.node offset) (head + 3 + sizeAll thenPart)⟩ ::
        stateAll s behind p 0 0 visits 1 (head + 3) thenPart
  | ifElse condition thenPart elsePart =>
    let head := offset + condition.size
    let cross := head + 3 + sizeAll thenPart
    if segment ≤ passes then
      [⟨head, .branch head (condition.node offset)
        (stateAll s behind ⟨true, false⟩ (earlier + segment) 1 (earlier + segment + 1) 1 (head + 3)
          thenPart)
        (stateAll s behind ⟨p.last, true⟩ (earlier + segment) 1 (earlier + segment + 1) 1 (cross + 3)
          elsePart)⟩]
    else
      ⟨head, .jumpUnless head (condition.node offset) (cross + 3)⟩ ::
        (stateAll s behind {} 0 0 visits 1 (head + 3) thenPart ++
          ⟨cross, .jump cross (cross + 3 + sizeAll elsePart)⟩ ::
            stateAll s behind p 0 0 visits 1 (cross + 3) elsePart)
  | tell target body =>
    [⟨offset + 2, .tell (offset + 2) (.leaf .globalVariable (s.name target) offset)
      (stateAll s behind {} 0 visits visits 1 (offset + 3) body)⟩]
  | whileLess index bound body =>
    let stop := offset + 8 + sizeAll body
    [loopStatement offset stop
      (testStatement visits (offset + 5) (testNode s offset index .lt bound) (stop + 2) ::
        stateAll s (stop + 2) {} 0 visits visits 1 (offset + 8) body)]
  | counted index first last up body =>
    let start := offset + 4
    let steps := start + 8 + sizeAll body
    let stop := steps + 7
    [⟨offset + 2, .assign (offset + 2) (s.localNode index) ((Push.byte first).node offset)⟩,
      loopStatement start stop
        (testStatement visits (start + 5) (testNode s start index (comparison up) last) (stop + 2) ::
          (stateAll s (stop + 2) {} 0 visits visits 1 (start + 8) body ++
            [stepStatement s steps index up]))]

def stateAll (s : Scope) (behind : Nat) (p : Placed) (earlier passes visits segment offset : Nat) :
    List Block → List Statement
  | [] => []
  | b :: rest =>
    b.state s behind (p.before (flatAll rest)) earlier passes visits segment offset ++
      stateAll s behind p earlier passes visits (b.nextSegment p.next segment rest)
        (offset + b.size) rest

end

end Block

end LingoSource
