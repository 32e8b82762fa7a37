import QuantumChain.StateEncoding
import QuantumChain.PrefixTree

/-! The tree behind the account trie.
It is determined by the accounts alone. -/
namespace QuantumChain.State
open List KeyedMap Nibbles PrefixTree

abbrev AccountTree := PrefixTree UInt8 Bytes

section
variable (keccak : Bytes → Hash)

def nodeOf : AccountTree → TrieNode
  | .empty => .empty
  | .leaf path value => .leaf path value
  | .extension path child => .extension path ((nodeOf child).hash keccak)
  | .branch children value =>
    .branch ((List.range 16).map (fun n =>
      if (children (UInt8.ofNat n)).isEmpty then none
      else some ((nodeOf (children (UInt8.ofNat n))).hash keccak))) value

def rootOf (tree : AccountTree) : Hash := (nodeOf keccak tree).hash keccak

def slot (tree : AccountTree) : Option Hash := if tree.isEmpty then none else some (rootOf keccak tree)

def made : AccountTree → List TrieNode
  | .empty => []
  | .leaf path value => [nodeOf keccak (.leaf path value)]
  | .extension path child => made child ++ [nodeOf keccak (.extension path child)]
  | .branch children value =>
    (List.range 16).flatMap (fun n => made (children (UInt8.ofNat n))) ++ [nodeOf keccak (.branch children value)]

def record (tree : AccountTree) (nodes : Nodes) : Nodes :=
  KeyedMap.insertAll (TrieNode.hash keccak) id (made keccak tree) nodes

def accountTree (accounts : KeyedMap Address AccountState) : AccountTree := grow buildFuel (accountItems keccak accounts)

end

theorem commonLenTree {first others depth} (head : depth ≤ first.length)
    (inside : ∀ item ∈ others, depth ≤ item.1.length) :
    commonLen first others depth = some (common (first.drop depth) (past depth others)) := by
  have all : others.mapM (fun item => do
      let path ← Nibbles.slice item.1 depth
      some (commonPrefixLen path (first.drop depth))) =
        some (others.map (fun item => commonPrefixLen (item.1.drop depth) (first.drop depth))) :=
    mapMSome (fun item member => by simp [sliceSome (inside item member)])
  simp only [commonLen,sliceSome head,bind,Option.bind] at *
  rw [all,common,past,map_map]
  rfl

theorem groupBehind (items) (depth) (nibble) :
    past (depth+1) (group items depth nibble) = behind nibble (past depth items) := by
  induction items with
  | nil => rfl
  | cons item rest ih =>
    obtain ⟨key,value⟩ := item
    have first : key[depth]? = (key.drop depth).head? := head?_drop.symm
    have next : key.drop (depth+1) = (key.drop depth).tail := tail_drop.symm
    cases shape : key.drop depth with
    | nil =>
      rw [shape,head?_nil] at first
      simpa [group,behind,past,first,shape] using ih
    | cons letter tail =>
      rw [shape,head?_cons] at first
      rw [shape,tail_cons] at next
      by_cases here : letter = nibble
      · subst here
        simpa [group,behind,past,first,shape,next] using ih
      · simpa [group,behind,past,first,shape,here] using ih

theorem growOccupied {fuel} {items : List (Nibbles × Bytes)} (some' : items ≠ []) :
    (grow (fuel+1) items).isEmpty = false := by
  match items with
  | [] => exact absurd rfl some'
  | [(path,value)] => rfl
  | first::second::rest =>
    rw [grow]
    split <;> rfl

theorem findPast {items : List Item} {depth width} (keys : ∀ item ∈ items, item.1.length = width)
    (inside : depth ≤ width) : (items.find? (fun item => item.1.length == depth)).map Prod.snd =
      ((past depth items).find? (fun item => item.1.isEmpty)).map Prod.snd := by
  rw [past,find?_map,Option.map_map]
  have same : items.find? (fun item => item.1.length == depth) =
      items.find? ((fun item => item.1.isEmpty) ∘ fun item => (item.1.drop depth,item.2)) := by
    rw [← head?_filter,← head?_filter]
    refine congrArg List.head? (filter_congr ?_)
    intro item mem
    rw [Function.comp,Bool.eq_iff_iff,beq_iff_eq,isEmpty_iff_length_eq_zero,length_drop,keys item mem]
    omega
  rw [same]
  rfl

section
variable {keccak : Bytes → Hash}

theorem storeExtension (path) (child) (nodes) :
    store keccak (.extension path (rootOf keccak child)) (record keccak child nodes) =
      (rootOf keccak (.extension path child),record keccak (.extension path child) nodes) := by
  rw [record,record,insertAll,insertAll,made,foldl_append]
  rfl

theorem storeBranch (children : UInt8 → AccountTree) (value) (nodes) :
    store keccak (.branch ((List.range 16).map (fun n => slot keccak (children (UInt8.ofNat n)))) value)
      ((List.range 16).foldl (fun nodes n => record keccak (children (UInt8.ofNat n)) nodes) nodes) =
      (rootOf keccak (.branch children value),record keccak (.branch children value) nodes) := by
  rw [record,insertAll,made,foldl_append,foldl_flatMap]
  rfl

theorem buildChildren {build items depth} {child : Nat → AccountTree} {l : List Nat}
    (each : ∀ n ∈ l, ∀ built, buildChild build items depth built n =
      some (built.1 ++ [slot keccak (child n)],record keccak (child n) built.2)) (built) :
    l.foldlM (buildChild build items depth) built =
      some (built.1 ++ l.map (fun n => slot keccak (child n)),
        l.foldl (fun nodes n => record keccak (child n) nodes) built.2) := by
  induction l generalizing built with
  | nil => simp
  | cons n rest ih =>
    have later := ih (fun m mem => each m (mem_cons_of_mem _ mem))
    rw [foldlM_cons,each n mem_cons_self,Option.bind_eq_bind,Option.bind_some,later]
    simp

theorem buildNodeTree {width fuel items depth} (nodes)
    (keys : ∀ item ∈ items, item.1.length = width) (inside : depth ≤ width) (enough : width - depth < fuel) :
    buildNode keccak fuel items depth nodes =
      some (rootOf keccak (grow fuel (past depth items)),record keccak (grow fuel (past depth items)) nodes) := by
  induction fuel generalizing items depth nodes with
  | zero => omega
  | succ fuel ih =>
    match items with
    | [] => rfl
    | [(key,value)] =>
      have fits := keys (key,value) mem_cons_self ▸ inside
      simp only [buildNode,sliceSome fits]
      rfl
    | first::second::rest =>
      have head := keys first mem_cons_self
      have others : ∀ item ∈ second::rest, depth ≤ item.1.length := fun item mem =>
        keys item (mem_cons_of_mem _ mem) ▸ inside
      have step : past depth (first::second::rest) =
        (first.1.drop depth,first.2)::(second.1.drop depth,second.2)::past depth rest := rfl
      have shared := commonBound (first.1.drop depth) (past depth (second::rest))
      rw [length_drop,head] at shared
      simp only [buildNode,commonLenTree (head ▸ inside) others,bind,Option.bind]
      rw [step,grow,← step]
      have same : common (first.1.drop depth) (past depth (second::rest)) =
        common (first.1.drop depth) ((second.1.drop depth,second.2)::past depth rest) := rfl
      rw [← same]
      generalize common (first.1.drop depth) (past depth (second::rest)) = n at shared ⊢
      split
      · have range : sliceRange first.1 depth (depth+n) = some ((first.1.drop depth).take n) := by
          rw [sliceRange,if_pos ⟨by omega,by omega⟩,drop_take,Nat.add_sub_cancel_left]
        have deeper : past (depth+n) (first::second::rest) = past n (past depth (first::second::rest)) := by
          simp [past]
        simp only [range,ih nodes keys (show depth + n ≤ width by omega) (by omega),deeper]
        exact congrArg some (storeExtension _ _ _)
      · have each : ∀ nibble ∈ List.range 16, ∀ built,
            buildChild (fun inside nodes => buildNode keccak fuel inside (depth+1) nodes) (first::second::rest) depth
              built nibble =
            some (built.1 ++ [slot keccak (grow fuel (behind (UInt8.ofNat nibble) (past depth (first::second::rest))))],
              record keccak (grow fuel (behind (UInt8.ofNat nibble) (past depth (first::second::rest)))) built.2) := by
          intro nibble _ built
          rw [← groupBehind,buildChild]
          split
          · rename_i none'
            rw [none']
            cases fuel <;> rfl
          · rename_i some'
            obtain ⟨below,sizes⟩ := groupInside keys some'
            have occupied : (grow fuel (past (depth+1) (group (first::second::rest) depth (UInt8.ofNat nibble)))).isEmpty =
                false := by
              obtain ⟨less,rfl⟩ : ∃ less, fuel = less + 1 := ⟨fuel - 1,by omega⟩
              exact growOccupied (fun none' => some' (map_eq_nil_iff.mp none'))
            rw [ih built.2 sizes below (by omega),slot,occupied]
            rfl
        simp only [buildChildren each,nil_append,findPast keys inside]
        exact congrArg some (storeBranch (fun letter => grow fuel (behind letter (past depth (first::second::rest)))) _ nodes)

theorem hashOccupied {node : TrieNode} (occupied : node ≠ .empty) : node.hash keccak = keccak node.rlpEncode := by
  cases node with
  | empty => exact absurd rfl occupied
  | leaf path value => rfl
  | extension path child => rfl
  | branch children value => rfl

theorem nodeOccupied {tree} (occupied : tree.isEmpty = false) : nodeOf keccak tree ≠ .empty := by
  cases tree with
  | empty => exact absurd occupied (by decide)
  | leaf path value => exact TrieNode.noConfusion
  | extension path child => exact TrieNode.noConfusion
  | branch children value => exact TrieNode.noConfusion

theorem madeFrom {P : AccountTree → Prop} (along : ∀ path child, P (.extension path child) → P child)
    (into : ∀ children value nibble, P (.branch children value) → P (children nibble)) {tree} (start : P tree)
    {node} (mem : node ∈ made keccak tree) : ∃ sub, P sub ∧ sub.isEmpty = false ∧ node = nodeOf keccak sub := by
  induction tree with
  | empty => exact absurd mem not_mem_nil
  | leaf path value => exact ⟨_,start,rfl,mem_singleton.mp mem⟩
  | extension path child ih =>
    rcases mem_append.mp mem with below | own
    · exact ih (along path child start) below
    · exact ⟨_,start,rfl,mem_singleton.mp own⟩
  | branch children value ih =>
    rcases mem_append.mp mem with below | own
    · obtain ⟨n,_,inside⟩ := mem_flatMap.mp below
      exact ih _ (into children value _ start) inside
    · exact ⟨_,start,rfl,mem_singleton.mp own⟩

theorem madeOccupied {tree node} (mem : node ∈ made keccak tree) : node ≠ .empty := by
  obtain ⟨sub,_,occupied,rfl⟩ := madeFrom (P := fun _ => True) (fun _ _ _ => trivial) (fun _ _ _ _ => trivial) trivial mem
  exact nodeOccupied occupied

theorem nodeMade {tree} (occupied : tree.isEmpty = false) : nodeOf keccak tree ∈ made keccak tree := by
  cases tree with
  | empty => exact absurd occupied (by decide)
  | leaf path value => exact mem_singleton_self _
  | extension path child => exact mem_append_right _ (mem_singleton_self _)
  | branch children value => exact mem_append_right _ (mem_singleton_self _)

end

/-- No collision of the hash among the listed inputs and the empty node. -/
structure DistinctHashes (keccak : Bytes → Hash) (inputs : List Bytes) : Prop where
  emptyRoot : keccak [0x80] = emptyTrieRoot
  apart : ∀ a ∈ [0x80]::inputs, ∀ b ∈ [0x80]::inputs, keccak a = keccak b → a = b

instance (keccak : Bytes → Hash) (inputs : List Bytes) : Decidable (DistinctHashes keccak inputs) :=
  decidable_of_iff (keccak [0x80] = emptyTrieRoot ∧
    ∀ a ∈ [0x80]::inputs, ∀ b ∈ [0x80]::inputs, keccak a = keccak b → a = b)
    ⟨fun both => ⟨both.1,both.2⟩,fun distinct => ⟨distinct.emptyRoot,distinct.apart⟩⟩

theorem DistinctHashes.sub {keccak inputs fewer} (distinct : DistinctHashes keccak inputs)
    (sub : ∀ a ∈ fewer, a ∈ inputs) : DistinctHashes keccak fewer := by
  have inside : ∀ a ∈ [0x80]::fewer, a ∈ [0x80]::inputs := fun a mem =>
    (mem_cons.mp mem).elim (fun here => here ▸ mem_cons_self) (fun there => mem_cons_of_mem _ (sub a there))
  exact ⟨distinct.emptyRoot,fun a memA b memB => distinct.apart a (inside a memA) b (inside b memB)⟩

section
variable {keccak : Bytes → Hash}

theorem DistinctHashes.notEmptyRoot {inputs} (distinct : DistinctHashes keccak inputs) {node : TrieNode}
    (occupied : node ≠ .empty) (mem : node.rlpEncode ∈ inputs) : node.hash keccak ≠ emptyTrieRoot := by
  rw [hashOccupied occupied,← distinct.emptyRoot]
  intro same
  exact TrieNode.encodedApart occupied (distinct.apart _ (mem_cons_of_mem _ mem) _ mem_cons_self same)

theorem recordLookup {tree} (distinct : DistinctHashes keccak ((made keccak tree).map TrieNode.rlpEncode))
    (sound : ∀ node ∈ made keccak tree, node.Sound) {node} (mem : node ∈ made keccak tree) (nodes) :
    (record keccak tree nodes).lookup (node.hash keccak) = some node := by
  refine insertAllAgrees ?_ mem nodes
  intro a memA b memB same
  rw [hashOccupied (madeOccupied memA),hashOccupied (madeOccupied memB)] at same
  have encodings := distinct.apart _ (mem_cons_of_mem _ (mem_map_of_mem memA)) _
    (mem_cons_of_mem _ (mem_map_of_mem memB)) same
  exact TrieNode.rlpEncodeInj (sound a memA) (sound b memB) encodings

abbrev Sized (value : Bytes) : Prop := value ≠ [0x80] ∧ value.length ≤ 2^56

theorem madeSound {tree : AccountTree} (within : tree.Within (· < 16) Sized 64) :
    ∀ node ∈ made keccak tree, node.Sound := by
  intro node mem
  obtain ⟨sub,inside,occupied,rfl⟩ := madeFrom (P := fun tree => tree.Within (· < 16) Sized 64)
    (fun _ _ outer => outer.2.2) (fun _ _ _ outer => outer.2 _) within mem
  cases sub with
  | empty => exact absurd occupied (by decide)
  | leaf path value => exact ⟨inside.1,inside.2.1,inside.2.2.2⟩
  | extension path child => exact ⟨inside.1,inside.2.1⟩
  | branch children value => exact ⟨by simp,inside.1⟩

theorem memAccountItems {accounts item} : item ∈ accountItems keccak accounts ↔
      ∃ address account, accounts.lookup address = some account ∧ item = (accountKey keccak address,account.rlpEncode) := by
  rw [accountItems,mem_insertionSort,mem_filterMap]
  constructor
  · rintro ⟨address,_,made'⟩
    obtain ⟨account,found,rfl⟩ := Option.map_eq_some_iff.mp made'
    exact ⟨address,account,found,rfl⟩
  · rintro ⟨address,account,found,rfl⟩
    exact ⟨address,memAscending.mpr (memKeys.mpr ⟨account,found⟩),by rw [found]; rfl⟩

theorem accountKeyInj {a b : Address} (apart : keccak (wordBytes a) = keccak (wordBytes b) → wordBytes a = wordBytes b)
    (same : accountKey keccak a = accountKey keccak b) : a = b :=
  wordBytesInj (by decide) (apart (wordBytesInj (by decide) (fromBytesInj same)))

theorem accountKeyValid (address) : (accountKey keccak address).Valid := fromBytesValid _

theorem accountKeyLength (address) : (accountKey keccak address).length = 64 := by
  simp [accountKey,fromBytesLength,wordBytesLength]

theorem encodedAccountSized (account : AccountState) : Sized account.rlpEncode :=
  ⟨by rw [account.encodedItems]; exact Rlp.encodeItemsApart _,account.encodedLength⟩

theorem accountTreeWithin (accounts : KeyedMap Address AccountState) :
    (accountTree keccak accounts).Within (· < 16) Sized 64 := by
  apply growWithin
  intro item mem
  obtain ⟨address,account,_,rfl⟩ := memAccountItems.mp mem
  exact ⟨accountKeyValid address,(accountKeyLength address).le,encodedAccountSized account⟩

def addressBytes (accounts : KeyedMap Address AccountState) : List Bytes := (ascending accounts.keys).map wordBytes

theorem memAddressBytes {accounts} {address : Address} {account}
    (found : accounts.lookup address = some account) : wordBytes address ∈ addressBytes accounts :=
  mem_map_of_mem (memAscending.mpr (memKeys.mpr ⟨account,found⟩))

def hashedInputs (keccak : Bytes → Hash) (accounts : KeyedMap Address AccountState) : List Bytes :=
  addressBytes accounts ++ (made keccak (accountTree keccak accounts)).map TrieNode.rlpEncode

def accountItemsIn (keccak : Bytes → Hash) (visit : Visit Address) (accounts : KeyedMap Address AccountState) : List Item :=
  ((visit.order accounts.keys).filterMap (fun address =>
    (accounts.lookup address).map (fun account => (accountKey keccak address,account.rlpEncode)))).insertionSort
      (fun a b => a.1 ≤ b.1)

theorem itemKeys (visit : Visit Address) (accounts : KeyedMap Address AccountState) :
    ((visit.order accounts.keys).filterMap (fun address =>
      (accounts.lookup address).map (fun account => (accountKey keccak address,account.rlpEncode)))).map Prod.fst =
      (visit.order accounts.keys).map (accountKey keccak) := by
  have items : (visit.order accounts.keys).filterMap (fun address =>
      (accounts.lookup address).map (fun account => (accountKey keccak address,account.rlpEncode))) =
      (visit.entries accounts).map (fun entry => (accountKey keccak entry.1,entry.2.rlpEncode)) := by
    rw [Visit.entries,map_filterMap]
    congr 1
    funext address
    rw [Option.map_map]
    rfl
  rw [items,map_map,← visit.entryKeys,map_map]
  rfl

theorem itemsDistinct {accounts} (distinct : DistinctHashes keccak (addressBytes accounts))
    (visit) : ((accountItemsIn keccak visit accounts).map Prod.fst).Nodup := by
  rw [accountItemsIn,((perm_insertionSort _ _).map _).nodup_iff,itemKeys]
  refine (visit.nodup _).map_on ?_
  intro a memA b memB same
  have listed : ∀ address ∈ visit.order accounts.keys, wordBytes address ∈ [0x80]::addressBytes accounts := by
    intro address mem
    exact mem_cons_of_mem _ (mem_map_of_mem (memAscending.mpr ((visit.complete _ _).mp mem)))
  exact accountKeyInj (distinct.apart _ (listed a memA) _ (listed b memB)) same

theorem itemsOrder {accounts} (distinct : DistinctHashes keccak (addressBytes accounts))
    (visit) : accountItemsIn keccak visit accounts = accountItems keccak accounts := by
  have perm : (accountItemsIn keccak visit accounts).Perm (accountItems keccak accounts) := by
    refine (perm_insertionSort _ _).trans (List.Perm.trans ?_ (perm_insertionSort _ _).symm)
    refine List.Perm.filterMap _ ((perm_ext_iff_of_nodup (visit.nodup _) (nodupAscending _)).mpr ?_)
    intro address
    rw [visit.complete,memAscending]
  have once := itemsDistinct distinct visit
  refine List.Perm.eq_of_pairwise ?_ (pairwise_insertionSort _ _) (pairwise_insertionSort _ _) perm
  intro a b memA memB le ge
  exact List.inj_on_of_nodup_map once memA (perm.mem_iff.mpr memB) (List.le_antisymm le ge)

theorem accountTreeProper {accounts} (distinct : DistinctHashes keccak (addressBytes accounts)) :
    (accountTree keccak accounts).Proper :=
  growProper (itemsDistinct distinct Visit.upwards) (accountItemsKeys keccak accounts)

theorem accountTreeLookup {accounts} {address : Address}
    (distinct : DistinctHashes keccak (wordBytes address::addressBytes accounts)) :
    (accountTree keccak accounts).lookup (accountKey keccak address) =
      (accounts.lookup address).map AccountState.rlpEncode := by
  have once : ((accountItems keccak accounts).map Prod.fst).Nodup :=
    itemsDistinct (distinct.sub (fun a mem => mem_cons_of_mem _ mem)) Visit.upwards
  have enough : ∀ item ∈ accountItems keccak accounts, item.1.length < buildFuel := by
    intro item mem
    rw [accountItemsKeys keccak accounts item mem]
    decide
  ext value
  rw [accountTree,lookupGrow once enough,memAccountItems,Option.map_eq_some_iff]
  constructor
  · rintro ⟨other,account,found,same⟩
    obtain ⟨keys,rfl⟩ := Prod.mk.inj same
    have here := accountKeyInj (distinct.apart _ (mem_cons_of_mem _ mem_cons_self) _
      (mem_cons_of_mem _ (mem_cons_of_mem _ (memAddressBytes found)))) keys
    exact ⟨account,here ▸ found,rfl⟩
  · rintro ⟨account,found,rfl⟩
    exact ⟨address,account,found,rfl⟩

def emptyTable : Nodes := (∅ : Nodes).insert emptyTrieRoot .empty

theorem rebuiltTree (accounts) : rebuilt keccak accounts =
      some (rootOf keccak (accountTree keccak accounts),record keccak (accountTree keccak accounts) emptyTable) := by
  unfold rebuilt
  dsimp only
  split
  · rename_i none'
    subst none'
    rfl
  · have whole : past 0 (accountItems keccak accounts) = accountItems keccak accounts := by simp [past]
    rw [buildNodeTree _ (accountItemsKeys keccak accounts) (Nat.zero_le _) (by decide),whole]
    rfl

theorem rebuiltRoot {t : PatriciaMerkleTrie} (current : t.Rebuilt keccak) :
    t.root = rootOf keccak (accountTree keccak t.accounts) ∧
      t.nodes = record keccak (accountTree keccak t.accounts) emptyTable := by
  have same := (rebuiltTree t.accounts).symm.trans current
  obtain ⟨root,nodes⟩ := Prod.mk.inj (Option.some.inj same)
  exact ⟨root.symm,nodes.symm⟩

def rebuiltIn (keccak : Bytes → Hash) (visit : Visit Address) (accounts : KeyedMap Address AccountState) :
    Option (Hash × Nodes) :=
  if accounts = ∅ then some (emptyTrieRoot,emptyTable)
  else buildNode keccak buildFuel (accountItemsIn keccak visit accounts) 0 emptyTable

theorem rebuiltOrder {accounts} (distinct : DistinctHashes keccak (addressBytes accounts))
    (visit) : rebuiltIn keccak visit accounts = rebuilt keccak accounts := by
  rw [rebuiltIn,itemsOrder distinct visit]
  rfl

end
end QuantumChain.State
