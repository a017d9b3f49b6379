import SpecDoc.Node

/-!
# Inline markup

A text is cut into pieces: the markers `**` and `*`, code between backticks, links and plain runs. Two
equal markers with something between them enclose bold or italic nodes; a marker without a partner is
plain text.

* `cutPieces` loses nothing: the pieces written one after the other are the text;
* `inlines` are the nodes of a text.
-/

namespace SpecDoc.Markup

/-! ## Pieces -/

/-- A piece of inline text. -/
inductive Piece where
  /-- The marker `**`. -/
  | strong
  /-- The marker `*`. -/
  | emphasis
  /-- Code between backticks. -/
  | code (text : List Char)
  /-- A label in brackets and a target in parentheses. -/
  | link (label target : List Char)
  /-- Anything else. -/
  | plain (text : List Char)
deriving DecidableEq

/-- The characters that end a plain run. -/
def isMarker (c : Char) : Bool := c == '*' || c == '\x60' || c == '['

/-- The part before the first occurrence of a character and the part behind it. -/
def splitAtFirst? (d : Char) : List Char → Option (List Char × List Char)
  | [] => none
  | c :: r =>
    if c = d then some ([], r) else (splitAtFirst? d r).map fun p => (c :: p.1, p.2)

/-- A split leaves the parts around the character. -/
theorem eq_of_splitAtFirst? {d : Char} {s a b : List Char} (h : splitAtFirst? d s = some (a, b)) :
    s = a ++ d :: b := by
  induction s generalizing a b with
  | nil => simp [splitAtFirst?] at h
  | cons c r ih =>
    unfold splitAtFirst? at h
    split at h
    · next hc => cases h; simp [hc]
    · obtain ⟨p, hp, h⟩ := Option.map_eq_some_iff.1 h
      cases h
      simp [ih hp]

/-- The piece at the start of a text that starts with `c`, and what follows it. A bracket without its
partner, or a link without its end, makes all of the rest plain; so does a backtick without a partner.
A closed bracket that no parenthesis follows is plain by itself. -/
def nextPiece (c : Char) (r : List Char) : Piece × List Char :=
  if c = '*' then
    match r with
    | '*' :: t => (.strong, t)
    | _ => (.emphasis, r)
  else if c = '\x60' then
    match splitAtFirst? '\x60' r with
    | some (text, t) => (.code text, t)
    | none => (.plain (c :: r), [])
  else if c = '[' then
    match splitAtFirst? ']' r with
    | none => (.plain (c :: r), [])
    | some (label, t) =>
      match t with
      | '(' :: u =>
        match splitAtFirst? ')' u with
        | some (target, v) => (.link label target, v)
        | none => (.plain (c :: r), [])
      | _ => (.plain (c :: label ++ [']']), t)
  else (.plain (c :: r.takeWhile (!isMarker ·)), r.dropWhile (!isMarker ·))

/-- How a piece is written. -/
def Piece.written : Piece → List Char
  | .strong => ['*', '*']
  | .emphasis => ['*']
  | .code text => '\x60' :: text ++ ['\x60']
  | .link label target => '[' :: label ++ ']' :: '(' :: target ++ [')']
  | .plain text => text

/-- The first piece and what follows it are the text. -/
theorem written_nextPiece (c : Char) (r : List Char) :
    (nextPiece c r).1.written ++ (nextPiece c r).2 = c :: r := by
  unfold nextPiece
  split
  · next hc =>
    subst hc
    split <;> simp [Piece.written]
  · split
    · next hc =>
      subst hc
      split
      · next h => simp [Piece.written, eq_of_splitAtFirst? h]
      · simp [Piece.written]
    · split
      · next hc =>
        subst hc
        split
        · simp [Piece.written]
        · next h =>
          rw [eq_of_splitAtFirst? h]
          split
          · split
            · next h' => simp [Piece.written, eq_of_splitAtFirst? h']
            · simp [Piece.written]
          · simp [Piece.written]
      · simp [Piece.written, List.takeWhile_append_dropWhile]

/-- No piece is empty. -/
theorem written_nextPiece_ne_nil (c : Char) (r : List Char) :
    (nextPiece c r).1.written ≠ [] := by
  unfold nextPiece
  repeat' split
  all_goals simp [Piece.written]

/-- What follows the first piece is shorter than the text. -/
theorem length_nextPiece_lt (c : Char) (r : List Char) :
    (nextPiece c r).2.length < (c :: r).length := by
  have h := congrArg List.length (written_nextPiece c r)
  have h0 : 0 < (nextPiece c r).1.written.length :=
    List.length_pos_iff.2 (written_nextPiece_ne_nil c r)
  rw [List.length_append] at h
  omega

/-- The pieces of a text. -/
def cutPieces (s : List Char) : List Piece :=
  match s with
  | [] => []
  | c :: r => (nextPiece c r).1 :: cutPieces (nextPiece c r).2
termination_by s.length
decreasing_by exact length_nextPiece_lt c r

/-- The pieces written one after the other are the text. -/
theorem flatMap_written_cutPieces (s : List Char) : (cutPieces s).flatMap Piece.written = s := by
  fun_induction cutPieces s with
  | case1 => rfl
  | case2 c r ih => rw [List.flatMap_cons, ih, written_nextPiece]

/-! ## Nodes -/

/-- A text node without a place. -/
def textNode (s : List Char) : Node := .leaf (.text (String.ofList s)) none

/-- Puts a text before nodes; a text node in front takes it in. -/
def consText (s : List Char) (ns : List Node) : List Node :=
  match ns with
  | .leaf (.text t) none :: r => textNode (s ++ t.toList) :: r
  | _ => textNode s :: ns

/-- The pieces before the next marker equal to `m`, and those behind it. -/
def splitAtMarker? (m : Piece) : List Piece → Option (List Piece × List Piece)
  | [] => none
  | p :: ps =>
    if p = m then some ([], ps) else (splitAtMarker? m ps).map fun q => (p :: q.1, q.2)

/-- A split leaves fewer pieces on each side. -/
theorem length_of_splitAtMarker? {m : Piece} {ps a b : List Piece}
    (h : splitAtMarker? m ps = some (a, b)) : a.length + b.length < ps.length := by
  induction ps generalizing a b with
  | nil => simp [splitAtMarker?] at h
  | cons p ps ih =>
    unfold splitAtMarker? at h
    split at h
    · cases h; simp
    · obtain ⟨q, hq, h⟩ := Option.map_eq_some_iff.1 h
      cases h
      have := ih hq
      simp only [List.length_cons]
      omega

/-- The group that a pair of markers encloses, if the piece is a marker. -/
def Piece.group? : Piece → Option Group
  | .strong => some .bold
  | .emphasis => some .italic
  | _ => none

/-- The nodes of a sequence of pieces, where `label` reads the label of a link. A marker goes with the
next equal one, unless nothing is between the two. -/
def nodesOfPieces (label : List Char → List Node) (ps : List Piece) : List Node :=
  match ps with
  | [] => []
  | p :: r =>
    match p.group? with
    | some g =>
      match h : splitAtMarker? p r with
      | some (a :: as, b) =>
        have := length_of_splitAtMarker? h
        .group g none (nodesOfPieces label (a :: as)) :: nodesOfPieces label b
      | _ => consText p.written (nodesOfPieces label r)
    | none =>
      match p with
      | .code text => .leaf (.inlineCode (String.ofList text)) none :: nodesOfPieces label r
      | .link l target =>
        .group (.link (String.ofList target)) none (label l) :: nodesOfPieces label r
      | _ => consText p.written (nodesOfPieces label r)
termination_by ps.length
decreasing_by
  all_goals simp_all only [List.length_cons]
  all_goals omega

/-- The nodes of the label of a link. A label holds no closing bracket, so there is no link in it. -/
def labelNodes (s : List Char) : List Node :=
  nodesOfPieces (fun l => [textNode l]) (cutPieces s)

/-- The nodes of a text. -/
def inlines (s : List Char) : List Node := nodesOfPieces labelNodes (cutPieces s)

end SpecDoc.Markup
