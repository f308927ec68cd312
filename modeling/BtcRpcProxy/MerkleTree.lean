import Mathlib.Data.Set.Function
import Mathlib.Data.List.Basic

/-!
Merkle trees in which each level pairs neighbours and pairs an odd last node with
itself. The root determines the leaves once their number is known.
-/

namespace Merkle

variable {Hash : Type}

def pairs : List Hash → List (Hash × Hash)
  | [] => []
  | [last] => [(last, last)]
  | left :: right :: rest => (left, right) :: pairs rest

def nextLevel (node : Hash × Hash → Hash) (hashes : List Hash) : List Hash := (pairs hashes).map node

/-- `fuel` bounds the number of levels. -/
def reduce (node : Hash × Hash → Hash) : Nat → List Hash → Option Hash
  | _, [] => none
  | _, [root] => some root
  | 0, _ => none
  | fuel + 1, hashes => reduce node fuel (nextLevel node hashes)

def root (node : Hash × Hash → Hash) (hashes : List Hash) : Option Hash :=
  reduce node hashes.length hashes

/-- Every pair that is hashed on the way to the root. -/
def hashedPairs (node : Hash × Hash → Hash) : Nat → List Hash → List (Hash × Hash)
  | _, [] => []
  | _, [_] => []
  | 0, _ => []
  | fuel + 1, hashes => pairs hashes ++ hashedPairs node fuel (nextLevel node hashes)

theorem pairs_length (hashes : List Hash) : (pairs hashes).length = (hashes.length + 1) / 2 := by
  induction hashes using pairs.induct with
  | case1 => simp [pairs]
  | case2 last => simp [pairs]
  | case3 left right rest ih =>
      simp only [pairs, List.length_cons, ih]
      omega

theorem nextLevel_length (node : Hash × Hash → Hash) (hashes : List Hash) :
    (nextLevel node hashes).length = (hashes.length + 1) / 2 := by
  rw [nextLevel, List.length_map, pairs_length]

theorem pairs_injective {left right : List Hash} (sameLength : left.length = right.length)
    (same : pairs left = pairs right) : left = right := by
  induction left using pairs.induct generalizing right with
  | case1 => exact (List.length_eq_zero_iff.mp sameLength.symm).symm
  | case2 last =>
      obtain ⟨other, rfl⟩ := List.length_eq_one_iff.mp sameLength.symm
      simp only [pairs, List.cons.injEq, Prod.mk.injEq, and_self, and_true] at same
      rw [same]
  | case3 first second rest ih =>
      match right, sameLength with
      | other :: another :: others, sameLength =>
          simp only [pairs, List.cons.injEq, Prod.mk.injEq] at same
          rw [same.1.1, same.1.2, ih (by simpa using sameLength) same.2]

theorem reduce_isSome (node : Hash × Hash → Hash) {fuel : Nat} {hashes : List Hash}
    (enough : hashes.length ≤ fuel + 1) (nonempty : hashes ≠ []) : (reduce node fuel hashes).isSome := by
  induction fuel generalizing hashes with
  | zero =>
      match hashes, nonempty with
      | [root], _ => rfl
      | _ :: _ :: _, _ => simp at enough
  | succ fuel ih =>
      match hashes, nonempty with
      | [root], _ => rfl
      | left :: right :: rest, _ =>
          refine ih ?_ (by simp [nextLevel, pairs])
          rw [nextLevel_length]
          simp only [List.length_cons] at enough ⊢
          omega

theorem root_isSome (node : Hash × Hash → Hash) {hashes : List Hash} (nonempty : hashes ≠ []) :
    (root node hashes).isSome :=
  reduce_isSome node (Nat.le_succ _) nonempty

theorem map_eq_of_injOn {Item Other : Type} {f : Item → Other} {left right : List Item}
    (injective : Set.InjOn f {item | item ∈ left ++ right}) (same : left.map f = right.map f) :
    left = right := by
  induction left generalizing right with
  | nil => exact (List.map_eq_nil_iff.mp same.symm).symm
  | cons item left ih =>
      obtain ⟨other, others, rfl, isImage, rest⟩ := List.map_eq_cons_iff.mp same.symm
      have isItem : other = item := injective (by simp) (by simp) isImage
      rw [isItem, ih (injective.mono ?_) rest.symm]
      intro later member
      rcases List.mem_append.mp member with inLeft | inRight
      · exact List.mem_append_left _ (List.mem_cons_of_mem _ inLeft)
      · exact List.mem_append_right _ (List.mem_cons_of_mem _ inRight)

theorem reduce_injective {node : Hash × Hash → Hash} {fuel : Nat} {left right : List Hash} {top : Hash}
    (injective : Set.InjOn node {pair | pair ∈ hashedPairs node fuel left ++ hashedPairs node fuel right})
    (sameLength : left.length = right.length) (leftRoot : reduce node fuel left = some top)
    (rightRoot : reduce node fuel right = some top) : left = right := by
  induction fuel generalizing left right with
  | zero =>
      match left, right, sameLength with
      | [first], [second], _ =>
          simp only [reduce, Option.some.injEq] at leftRoot rightRoot
          rw [leftRoot, rightRoot]
      | _ :: _ :: _, _, _ => simp [reduce] at leftRoot
  | succ fuel ih =>
      match left, right, sameLength with
      | [first], [second], _ =>
          simp only [reduce, Option.some.injEq] at leftRoot rightRoot
          rw [leftRoot, rightRoot]
      | a :: b :: rest, c :: d :: others, sameLength =>
          simp only [reduce] at leftRoot rightRoot
          have nextSame : nextLevel node (a :: b :: rest) = nextLevel node (c :: d :: others) := by
            refine ih (injective.mono ?_) ?_ leftRoot rightRoot
            · intro pair member
              rcases List.mem_append.mp member with inLeft | inRight
              · exact List.mem_append_left _ (List.mem_append_right _ inLeft)
              · exact List.mem_append_right _ (List.mem_append_right _ inRight)
            · rw [nextLevel_length, nextLevel_length, sameLength]
          have pairsSame : pairs (a :: b :: rest) = pairs (c :: d :: others) := by
            refine map_eq_of_injOn (injective.mono ?_) nextSame
            intro pair member
            rcases List.mem_append.mp member with inLeft | inRight
            · exact List.mem_append_left _ (List.mem_append_left _ inLeft)
            · exact List.mem_append_right _ (List.mem_append_left _ inRight)
          exact pairs_injective sameLength pairsSame

/-- The leaves are determined by their number and the root, as long as no two of the
pairs hashed under it collide. -/
theorem root_injective {node : Hash × Hash → Hash} {left right : List Hash} {top : Hash}
    (injective : Set.InjOn node
      {pair | pair ∈ hashedPairs node left.length left ++ hashedPairs node right.length right})
    (sameLength : left.length = right.length) (leftRoot : root node left = some top)
    (rightRoot : root node right = some top) : left = right := by
  rw [root, ← sameLength] at rightRoot
  rw [← sameLength] at injective
  exact reduce_injective injective sameLength leftRoot rightRoot

end Merkle
