import BtcRpcProxy.MerkleTree

/-!
Lists of different lengths under one root. An odd last node is paired with itself, so a list can
have the root of a shorter one; it then begins with that list and goes on with items of it.
-/

namespace Merkle

variable {Hash : Type}

/-- The longer list goes on with items that are allowed. -/
def Extends (allowed short long : List Hash) : Prop :=
  ∃ more, long = short ++ more ∧ ∀ item ∈ more, item ∈ allowed

/-- The longer list goes on with items the shorter one has after its first. -/
def Repeats (short long : List Hash) : Prop := Extends short.tail short long

theorem Extends.refl (allowed hashes : List Hash) : Extends allowed hashes hashes := ⟨[], by simp, by simp⟩

theorem Extends.of_map {Item : Type} {f : Item → Hash} {allowed short long : List Item}
    (injective : Set.InjOn f {item | item ∈ allowed ++ short ++ long})
    (further : Extends (allowed.map f) (short.map f) (long.map f)) : Extends allowed short long := by
  obtain ⟨more, isLong, again⟩ := further
  obtain ⟨start, rest, rfl, isStart, rfl⟩ := List.map_eq_append_iff.mp isLong
  have isShort : start = short := by
    refine map_eq_of_injOn (injective.mono ?_) isStart
    intro item member
    simp only [Set.mem_ofPred_eq, List.mem_append] at member ⊢
    tauto
  subst isShort
  refine ⟨rest, rfl, ?_⟩
  intro item member
  obtain ⟨other, isAllowed, same⟩ := List.mem_map.mp (again (f item) (List.mem_map_of_mem member))
  have isItem : other = item := injective (by simp [isAllowed]) (by simp [member]) same
  exact isItem ▸ isAllowed

theorem Repeats.mem_iff {short long : List Hash} (repeats : Repeats short long) {item : Hash} :
    item ∈ long ↔ item ∈ short := by
  obtain ⟨more, rfl, again⟩ := repeats
  rw [List.mem_append]
  exact ⟨fun member => member.elim id fun later => List.mem_of_mem_tail (again item later), Or.inl⟩

theorem Repeats.head?_eq {short long : List Hash} (repeats : Repeats short long) (nonempty : short ≠ []) :
    long.head? = short.head? := by
  obtain ⟨more, rfl, _⟩ := repeats
  exact List.head?_append_of_ne_nil short nonempty

theorem Repeats.of_map {Item : Type} {f : Item → Hash} {short long : List Item}
    (injective : Set.InjOn f {item | item ∈ short ++ long}) (repeats : Repeats (short.map f) (long.map f)) :
    Repeats short long := by
  refine Extends.of_map (injective.mono ?_) (by rwa [List.map_tail])
  intro item member
  simp only [Set.mem_ofPred_eq, List.mem_append] at member ⊢
  rcases member with (inTail | inShort) | inLong
  · exact Or.inl (List.mem_of_mem_tail inTail)
  · exact Or.inl inShort
  · exact Or.inr inLong

theorem repeats_cons_iff {first other : Hash} {short long : List Hash} :
    Repeats (first :: short) (other :: long) ↔ first = other ∧ Extends short short long := by
  constructor
  · rintro ⟨more, isLong, again⟩
    rw [List.cons_append, List.cons.injEq] at isLong
    exact ⟨isLong.1.symm, more, isLong.2, again⟩
  · rintro ⟨rfl, more, rfl, again⟩
    exact ⟨more, rfl, again⟩

theorem Repeats.tail {short long : List Hash} (repeats : Repeats short long) (nonempty : short ≠ []) :
    Extends short.tail short.tail long.tail := by
  obtain ⟨more, rfl, again⟩ := repeats
  exact ⟨more, List.tail_append_of_ne_nil nonempty, again⟩

theorem Repeats.find?_eq {short long : List Hash} (repeats : Repeats short long) (found : Hash → Bool) :
    long.find? found = short.find? found := by
  obtain ⟨more, rfl, again⟩ := repeats
  rw [List.find?_append]
  cases first : short.find? found with
  | some item => rfl
  | none =>
      rw [Option.none_or, List.find?_eq_none]
      rw [List.find?_eq_none] at first
      exact fun item member => first item (List.mem_of_mem_tail (again item member))

theorem Repeats.eq_of_nodup {short long : List Hash} (repeats : Repeats short long) (distinct : long.Nodup) :
    long = short := by
  obtain ⟨more, rfl, again⟩ := repeats
  have none : more = [] := by
    refine List.eq_nil_iff_forall_not_mem.mpr ?_
    intro item member
    exact (List.nodup_append.mp distinct).2.2 item (List.mem_of_mem_tail (again item member)) item member rfl
  rw [none, List.append_nil]

/-! Items and the pairs they stand in. -/

theorem mem_of_mem_pairs {hashes : List Hash} {pair : Hash × Hash} (member : pair ∈ pairs hashes) :
    pair.1 ∈ hashes ∧ pair.2 ∈ hashes := by
  induction hashes using pairs.induct with
  | case1 => simp [pairs] at member
  | case2 last =>
      obtain rfl := List.mem_singleton.mp member
      exact ⟨List.mem_cons_self, List.mem_cons_self⟩
  | case3 left right rest ih =>
      rcases List.mem_cons.mp member with rfl | later
      · simp
      · obtain ⟨first, second⟩ := ih later
        exact ⟨List.mem_cons_of_mem _ (List.mem_cons_of_mem _ first),
          List.mem_cons_of_mem _ (List.mem_cons_of_mem _ second)⟩

theorem exists_pair_of_mem {hashes : List Hash} {item : Hash} (member : item ∈ hashes) :
    ∃ pair ∈ pairs hashes, item = pair.1 ∨ item = pair.2 := by
  induction hashes using pairs.induct with
  | case1 => simp at member
  | case2 last => exact ⟨(last, last), by simp [pairs], Or.inl (List.mem_singleton.mp member)⟩
  | case3 left right rest ih =>
      rcases List.mem_cons.mp member with rfl | member
      · exact ⟨_, List.mem_cons_self, Or.inl rfl⟩
      · rcases List.mem_cons.mp member with rfl | later
        · exact ⟨_, List.mem_cons_self, Or.inr rfl⟩
        · obtain ⟨pair, isPair, inPair⟩ := ih later
          exact ⟨pair, List.mem_cons_of_mem _ isPair, inPair⟩

theorem mem_tail_of_mem_pairs_tail {hashes : List Hash} {pair : Hash × Hash}
    (member : pair ∈ (pairs hashes).tail) : pair.1 ∈ hashes.tail ∧ pair.2 ∈ hashes.tail := by
  match hashes with
  | [] => simp [pairs] at member
  | [_] => simp [pairs] at member
  | _ :: _ :: _ =>
      obtain ⟨first, second⟩ := mem_of_mem_pairs member
      exact ⟨List.mem_cons_of_mem _ first, List.mem_cons_of_mem _ second⟩

/-- What a list has beyond another whose pairs come first is the last item of that one, once, and
what is in the pairs that follow. -/
theorem append_of_pairs {short long : List Hash} {further : List (Hash × Hash)}
    (isLong : pairs long = pairs short ++ further) (shorter : short.length ≤ long.length) :
    ∃ more, long = short ++ more ∧ ∀ item ∈ more,
      short.getLast? = some item ∨ ∃ pair ∈ further, item = pair.1 ∨ item = pair.2 := by
  induction short using pairs.induct generalizing long with
  | case1 =>
      refine ⟨long, rfl, ?_⟩
      intro item member
      obtain ⟨pair, isPair, inPair⟩ := exists_pair_of_mem member
      rw [isLong] at isPair
      exact Or.inr ⟨pair, isPair, inPair⟩
  | case2 last =>
      rcases long with _ | ⟨first, _ | ⟨second, rest⟩⟩
      · simp at shorter
      · simp only [pairs, List.cons_append, List.nil_append, List.cons.injEq, Prod.mk.injEq,
          and_self] at isLong
        exact ⟨[], by rw [isLong.1, List.append_nil], by simp⟩
      · simp only [pairs, List.cons_append, List.nil_append, List.cons.injEq, Prod.mk.injEq] at isLong
        obtain ⟨⟨rfl, rfl⟩, rfl⟩ := isLong
        refine ⟨second :: rest, rfl, ?_⟩
        intro item member
        rcases List.mem_cons.mp member with rfl | later
        · exact Or.inl rfl
        · exact Or.inr (exists_pair_of_mem later)
  | case3 left right rest ih =>
      rcases long with _ | ⟨first, _ | ⟨second, others⟩⟩
      · simp at shorter
      · simp at shorter
      · simp only [pairs, List.cons_append, List.cons.injEq, Prod.mk.injEq] at isLong
        obtain ⟨⟨rfl, rfl⟩, isOthers⟩ := isLong
        obtain ⟨more, rfl, again⟩ := ih isOthers (by simpa using shorter)
        refine ⟨more, rfl, ?_⟩
        intro item member
        refine (again item member).imp_left ?_
        intro isLast
        rw [List.getLast?_cons_cons, List.getLast?_cons, isLast]
        cases rest with
        | nil => simp at isLast
        | cons => rfl

theorem repeats_of_pairs {short long : List Hash} (repeats : Repeats (pairs short) (pairs long))
    (shorter : short.length ≤ long.length) (several : 1 < short.length) : Repeats short long := by
  obtain ⟨further, isLong, again⟩ := repeats
  obtain ⟨more, rfl, origin⟩ := append_of_pairs isLong shorter
  refine ⟨more, rfl, ?_⟩
  intro item member
  rcases origin item member with isLast | ⟨pair, isPair, rfl | rfl⟩
  · match short, several with
    | first :: second :: rest, _ =>
        rw [List.getLast?_cons_cons] at isLast
        exact List.mem_of_getLast? isLast
  · exact (mem_tail_of_mem_pairs_tail (again pair isPair)).1
  · exact (mem_tail_of_mem_pairs_tail (again pair isPair)).2

/-! Roots. -/

def Apart (node : Hash × Hash → Hash) (leaves : List Hash) (hashed : List (Hash × Hash)) : Prop :=
  ∀ leaf ∈ leaves, ∀ pair ∈ hashed, leaf ≠ node pair

theorem reduce_next (node : Hash × Hash → Hash) (fuel : Nat) {hashes : List Hash}
    (several : 1 < hashes.length) :
    reduce node (fuel + 1) hashes = reduce node fuel (nextLevel node hashes) := by
  match hashes, several with
  | _ :: _ :: _, _ => rfl

theorem hashedPairs_next (node : Hash × Hash → Hash) (fuel : Nat) {hashes : List Hash}
    (several : 1 < hashes.length) : hashedPairs node (fuel + 1) hashes =
      pairs hashes ++ hashedPairs node fuel (nextLevel node hashes) := by
  match hashes, several with
  | _ :: _ :: _, _ => rfl

theorem several_of_hashedPairs {node : Hash × Hash → Hash} {fuel : Nat} {hashes : List Hash}
    {pair : Hash × Hash} (member : pair ∈ hashedPairs node fuel hashes) :
    1 < hashes.length ∧ ∃ lower, fuel = lower + 1 := by
  match hashes, fuel, member with
  | [], _, member => simp [hashedPairs] at member
  | [_], _, member => simp [hashedPairs] at member
  | _ :: _ :: _, 0, member => simp [hashedPairs] at member
  | _ :: _ :: _, lower + 1, _ => exact ⟨by simp, lower, rfl⟩

theorem first_of_hashedPairs {node : Hash × Hash → Hash} {fuel : Nat} {hashes : List Hash}
    {pair : Hash × Hash} (member : pair ∈ hashedPairs node fuel hashes) :
    pair.1 ∈ hashes ∨ ∃ under ∈ hashedPairs node fuel hashes, pair.1 = node under := by
  induction fuel generalizing hashes with
  | zero =>
      obtain ⟨_, lower, isZero⟩ := several_of_hashedPairs member
      omega
  | succ fuel ih =>
      have several := (several_of_hashedPairs member).1
      rw [hashedPairs_next node fuel several] at member ⊢
      rcases List.mem_append.mp member with here | above
      · exact Or.inl (mem_of_mem_pairs here).1
      · right
        rcases ih above with isNode | ⟨under, isUnder, same⟩
        · obtain ⟨under, isUnder, same⟩ := List.mem_map.mp isNode
          exact ⟨under, List.mem_append_left _ isUnder, same.symm⟩
        · exact ⟨under, List.mem_append_right _ isUnder, same⟩

theorem top_of_reduce {node : Hash × Hash → Hash} {fuel : Nat} {hashes : List Hash} {top : Hash}
    (isTop : reduce node fuel hashes = some top) :
    hashes = [top] ∨ ∃ pair ∈ hashedPairs node fuel hashes, top = node pair := by
  induction fuel generalizing hashes with
  | zero =>
      rcases hashes with _ | ⟨left, _ | ⟨right, rest⟩⟩
      · simp [reduce] at isTop
      · simp only [reduce, Option.some.injEq] at isTop
        exact Or.inl (by rw [isTop])
      · simp [reduce] at isTop
  | succ fuel ih =>
      rcases hashes with _ | ⟨left, _ | ⟨right, rest⟩⟩
      · simp [reduce] at isTop
      · simp only [reduce, Option.some.injEq] at isTop
        exact Or.inl (by rw [isTop])
      · right
        rcases ih isTop with single | ⟨pair, isPair, same⟩
        · have isNode : top ∈ nextLevel node (left :: right :: rest) := by simp [single]
          obtain ⟨pair, isPair, same⟩ := List.mem_map.mp isNode
          exact ⟨pair, List.mem_append_left _ isPair, same.symm⟩
        · exact ⟨pair, List.mem_append_right _ isPair, same⟩

section

variable {node : Hash × Hash → Hash} {leftFuel rightFuel : Nat} {left right : List Hash}

theorem apart_nextLevel
    (injective : Set.InjOn node {pair |
      pair ∈ hashedPairs node (leftFuel + 1) left ++ hashedPairs node (rightFuel + 1) right})
    (leftSeveral : 1 < left.length) (rightSeveral : 1 < right.length)
    (apart : Apart node left (hashedPairs node (rightFuel + 1) right)) :
    Apart node (nextLevel node left) (hashedPairs node rightFuel (nextLevel node right)) := by
  rw [hashedPairs_next node leftFuel leftSeveral, hashedPairs_next node rightFuel rightSeveral] at injective
  rw [hashedPairs_next node rightFuel rightSeveral] at apart
  intro leaf isNode pair member same
  obtain ⟨under, isUnder, rfl⟩ := List.mem_map.mp isNode
  obtain rfl : under = pair := injective (List.mem_append_left _ (List.mem_append_left _ isUnder))
    (List.mem_append_right _ (List.mem_append_right _ member)) same
  have isLeaf := (mem_of_mem_pairs isUnder).1
  -- The pair stands one level up on the right, where its first item is a node.
  rcases first_of_hashedPairs member with isItem | ⟨lower, isLower, isFirst⟩
  · obtain ⟨lower, isLower, isFirst⟩ := List.mem_map.mp isItem
    exact apart under.1 isLeaf lower (List.mem_append_left _ isLower) isFirst.symm
  · exact apart under.1 isLeaf lower (List.mem_append_right _ isLower) isFirst

theorem repeats_of_nextLevel
    (injective : Set.InjOn node {pair |
      pair ∈ hashedPairs node (leftFuel + 1) left ++ hashedPairs node (rightFuel + 1) right})
    (leftSeveral : 1 < left.length) (shorter : left.length ≤ right.length)
    (repeats : Repeats (nextLevel node left) (nextLevel node right)) : Repeats left right := by
  rw [hashedPairs_next node leftFuel leftSeveral,
    hashedPairs_next node rightFuel (Nat.lt_of_lt_of_le leftSeveral shorter)] at injective
  have pairsRepeat : Repeats (pairs left) (pairs right) := by
    refine Repeats.of_map (injective.mono ?_) repeats
    intro pair member
    rcases List.mem_append.mp member with inLeft | inRight
    · exact List.mem_append_left _ (List.mem_append_left _ inLeft)
    · exact List.mem_append_right _ (List.mem_append_left _ inRight)
  exact repeats_of_pairs pairsRepeat shorter leftSeveral

theorem reduce_repeats {top : Hash}
    (injective : Set.InjOn node
      {pair | pair ∈ hashedPairs node leftFuel left ++ hashedPairs node rightFuel right})
    (leftApart : Apart node left (hashedPairs node rightFuel right))
    (rightApart : Apart node right (hashedPairs node leftFuel left))
    (shorter : left.length ≤ right.length) (leftRoot : reduce node leftFuel left = some top)
    (rightRoot : reduce node rightFuel right = some top) : Repeats left right := by
  induction leftFuel generalizing rightFuel left right with
  | zero =>
      rcases top_of_reduce leftRoot with rfl | ⟨pair, member, _⟩
      · rcases top_of_reduce rightRoot with rfl | ⟨pair, member, isNode⟩
        · exact Extends.refl _ _
        · exact absurd isNode (leftApart top List.mem_cons_self pair member)
      · obtain ⟨_, lower, isZero⟩ := several_of_hashedPairs member
        omega
  | succ leftFuel ih =>
      rcases top_of_reduce leftRoot with rfl | ⟨pair, member, isNode⟩
      · rcases top_of_reduce rightRoot with rfl | ⟨pair, member, isNode⟩
        · exact Extends.refl _ _
        · exact absurd isNode (leftApart top List.mem_cons_self pair member)
      · rcases top_of_reduce rightRoot with rfl | ⟨other, otherMember, _⟩
        · exact absurd isNode (rightApart top List.mem_cons_self pair member)
        · have leftSeveral := (several_of_hashedPairs member).1
          obtain ⟨rightSeveral, rightFuel, rfl⟩ := several_of_hashedPairs otherMember
          have swapped : Set.InjOn node {pair | pair ∈
              hashedPairs node (rightFuel + 1) right ++ hashedPairs node (leftFuel + 1) left} := by
            refine injective.mono ?_
            intro pair member
            exact List.mem_append.mpr (List.mem_append.mp member).symm
          refine repeats_of_nextLevel injective leftSeveral shorter (ih ?_
            (apart_nextLevel injective leftSeveral rightSeveral leftApart)
            (apart_nextLevel swapped rightSeveral leftSeveral rightApart) ?_ ?_ ?_)
          · rw [hashedPairs_next node leftFuel leftSeveral, hashedPairs_next node rightFuel rightSeveral]
              at injective
            refine injective.mono ?_
            intro pair member
            rcases List.mem_append.mp member with inLeft | inRight
            · exact List.mem_append_left _ (List.mem_append_right _ inLeft)
            · exact List.mem_append_right _ (List.mem_append_right _ inRight)
          · rw [nextLevel_length, nextLevel_length]
            omega
          · rw [← reduce_next node leftFuel leftSeveral, leftRoot]
          · rw [← reduce_next node rightFuel rightSeveral, rightRoot]

/-- Of two lists with one root the longer one only repeats items of the shorter, as long as no two
of the pairs hashed under it collide and no leaf is a node. -/
theorem root_repeats {top : Hash}
    (injective : Set.InjOn node
      {pair | pair ∈ hashedPairs node left.length left ++ hashedPairs node right.length right})
    (leftApart : Apart node left (hashedPairs node right.length right))
    (rightApart : Apart node right (hashedPairs node left.length left))
    (shorter : left.length ≤ right.length) (leftRoot : root node left = some top)
    (rightRoot : root node right = some top) : Repeats left right :=
  reduce_repeats injective leftApart rightApart shorter leftRoot rightRoot

end

end Merkle
