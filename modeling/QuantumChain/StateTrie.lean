import QuantumChain.FixedWidth
import QuantumChain.KeyedMap
import QuantumChain.PrefixTree
import Mathlib.Data.List.Sort

/-! The account trie and its rebuild.
A slice out of range is a panic; building runs on fuel. -/
namespace QuantumChain.State
open List

abbrev StorageKey := BitVec 256
abbrev StorageValue := BitVec 256
abbrev Nibbles := List UInt8

def emptyTrieRoot : Hash := 0x56e81f171bcc55a6ff8345e692c0f86e5b48e01b996cadc001622fb5e363b421
def emptyCodeHash : Hash := 0

namespace Nibbles

def fromBytes (bytes : Bytes) : Nibbles := bytes.flatMap (fun (byte : UInt8) => [byte >>> 4,byte &&& 0x0F])

def slice (path : Nibbles) (start : Nat) : Option Nibbles :=
  if start ≤ path.length then some (path.drop start) else none

def sliceRange (path : Nibbles) (start stop : Nat) : Option Nibbles :=
  if start ≤ stop ∧ stop ≤ path.length then some ((path.take stop).drop start) else none

def commonPrefixLen (path other : Nibbles) : Nat :=
  ((path.zip other).takeWhile (fun pair => pair.1 == pair.2)).length

def packPairs : Nibbles → Bytes
  | [] => []
  | [a] => [a <<< 4]
  | a::b::rest => ((a <<< 4) ||| b) :: packPairs rest

def encodeHexPrefix (path : Nibbles) (isLeaf : Bool) : Bytes :=
  let odd := path.length % 2 = 1
  let flag : UInt8 := (if isLeaf then 2 else 0) + (if odd then 1 else 0)
  match path with
  | first::rest => if odd then ((flag <<< 4) ||| first) :: packPairs rest else (flag <<< 4) :: packPairs path
  | [] => [flag <<< 4]

theorem fromBytesLength (bytes) : (fromBytes bytes).length = 2 * bytes.length := by
  induction bytes with
  | nil => rfl
  | cons b rest ih =>
    simp only [fromBytes,flatMap_cons,length_append,length_cons,length_nil] at *
    omega

end Nibbles

namespace Rlp

def encodeLength (len : Nat) : Bytes :=
  match (beBytes 8 len).dropWhile (· == 0) with
  | [] => [0]
  | bytes => bytes

def encodeBytes (data : Bytes) : Bytes :=
  match data with
  | [single] => if single < 0x80 then [single] else [0x81,single]
  | _ =>
    if data.length < 56 then (0x80 + UInt8.ofNat data.length) :: data
    else (0xb7 + UInt8.ofNat (encodeLength data.length).length) :: (encodeLength data.length ++ data)

def listHeader (total : Nat) : Bytes :=
  if total < 56 then [0xc0 + UInt8.ofNat total]
  else (0xf7 + UInt8.ofNat (encodeLength total).length) :: encodeLength total

def encodeTwoItems (a b : Bytes) : Bytes :=
  listHeader ((encodeBytes a).length + (encodeBytes b).length) ++ encodeBytes a ++ encodeBytes b

def encodeListItems (items : List Bytes) : Bytes :=
  listHeader (items.map (fun item => (encodeBytes item).length)).sum ++ items.flatMap encodeBytes

def encodeUint (width value : Nat) : Bytes :=
  if value = 0 then [0x80]
  else if value < 128 then [UInt8.ofNat value]
  else
    let bytes := (beBytes width value).dropWhile (· == 0)
    (0x80 + UInt8.ofNat bytes.length) :: bytes

def encodeU64 (value : U64) : Bytes := encodeUint 8 value.toNat

def encodeU128 (value : U128) : Bytes := encodeUint 16 value.toNat

def encodeList (items : Bytes) : Bytes := listHeader items.length ++ items

end Rlp

structure AccountState where
  balance : U128 := 0
  nonce : U64 := 0
  codeHash : Hash := emptyCodeHash
  storageRoot : Hash := emptyTrieRoot
  deriving DecidableEq, Repr

def AccountState.rlpEncode (a : AccountState) : Bytes :=
  Rlp.encodeList (Rlp.encodeU64 a.nonce ++ Rlp.encodeU128 a.balance ++
    Rlp.encodeBytes (wordBytes a.storageRoot) ++ Rlp.encodeBytes (wordBytes a.codeHash))

inductive TrieNode where
  | empty
  | leaf (path : Nibbles) (value : Bytes)
  | extension (path : Nibbles) (child : Hash)
  | branch (children : List (Option Hash)) (value : Option Bytes)
  deriving DecidableEq, Repr

namespace TrieNode

def rlpEncode : TrieNode → Bytes
  | .empty => [0x80]
  | .leaf path value => Rlp.encodeTwoItems (Nibbles.encodeHexPrefix path true) value
  | .extension path child => Rlp.encodeTwoItems (Nibbles.encodeHexPrefix path false) (wordBytes child)
  | .branch children value =>
    Rlp.encodeListItems (children.map (fun child => (child.map wordBytes).getD [0x80]) ++ [value.getD [0x80]])

def hash (keccak : Bytes → Hash) (node : TrieNode) : Hash :=
  match node with
  | .empty => emptyTrieRoot
  | _ => keccak node.rlpEncode

end TrieNode

abbrev Nodes := KeyedMap Hash TrieNode
abbrev Item := Nibbles × Bytes

section
variable (keccak : Bytes → Hash)

def store (node : TrieNode) (nodes : Nodes) : Hash × Nodes :=
  (node.hash keccak,nodes.insert (node.hash keccak) node)

def commonLen (first : Nibbles) (others : List Item) (depth : Nat) : Option Nat := do
  let head ← Nibbles.slice first depth
  let lengths ← others.mapM (fun item => do
    let path ← Nibbles.slice item.1 depth
    some (Nibbles.commonPrefixLen path head))
  some (lengths.min?.getD 0)

def group (items : List Item) (depth : Nat) (nibble : UInt8) : List Item :=
  items.filter (fun item => item.1[depth]? == some nibble)

def buildChild (build : List Item → Nodes → Option (Hash × Nodes)) (items : List Item) (depth : Nat)
    (built : List (Option Hash) × Nodes) (nibble : Nat) : Option (List (Option Hash) × Nodes) :=
  if group items depth (UInt8.ofNat nibble) = [] then some (built.1 ++ [none],built.2)
  else do
    let (child,below) ← build (group items depth (UInt8.ofNat nibble)) built.2
    some (built.1 ++ [some child],below)

def buildNode : Nat → List Item → Nat → Nodes → Option (Hash × Nodes)
  | 0,_,_,_ => none
  | _+1,[],_,nodes => some (emptyTrieRoot,nodes)
  | _+1,[(key,value)],depth,nodes => do
    let remaining ← Nibbles.slice key depth
    some (store keccak (.leaf remaining value) nodes)
  | fuel+1,first::second::rest,depth,nodes => do
    let items := first::second::rest
    let common ← commonLen first.1 (second::rest) depth
    if 0 < common then
      let path ← Nibbles.sliceRange first.1 depth (depth+common)
      let (child,below) ← buildNode fuel items (depth+common) nodes
      some (store keccak (.extension path child) below)
    else
      let (children,below) ← (List.range 16).foldlM
        (buildChild (fun inside nodes => buildNode fuel inside (depth+1) nodes) items depth) ([],nodes)
      let value := (items.find? (fun item => item.1.length == depth)).map Prod.snd
      some (store keccak (.branch children value) below)

def accountKey (address : Address) : Nibbles := Nibbles.fromBytes (wordBytes (keccak (wordBytes address)))

def accountItems (accounts : KeyedMap Address AccountState) : List Item :=
  ((ascending accounts.keys).filterMap (fun address =>
    (accounts.lookup address).map (fun account => (accountKey keccak address,account.rlpEncode)))).insertionSort
      (fun a b => a.1 ≤ b.1)

def buildFuel : Nat := 65

def rebuilt (accounts : KeyedMap Address AccountState) : Option (Hash × Nodes) :=
  let nodes : Nodes := (∅ : Nodes).insert emptyTrieRoot .empty
  if accounts = ∅ then some (emptyTrieRoot,nodes)
  else buildNode keccak buildFuel (accountItems keccak accounts) 0 nodes

end

theorem mapMSome {α β : Type} {f} {g : α → β} {l : List α}
    (each : ∀ a ∈ l, f a = some (g a)) : l.mapM f = some (l.map g) := by
  induction l with
  | nil => rfl
  | cons a rest ih =>
    have tail := ih (fun b inside => each b (mem_cons_of_mem _ inside))
    simp [mapM_cons,each a (mem_cons_self ..),tail]

theorem foldlMSome {α β : Type} {f} {l : List α}
    (each : ∀ b, ∀ a ∈ l, ∃ next, f b a = some next) (b : β) : ∃ last, l.foldlM f b = some last := by
  induction l generalizing b with
  | nil => exact ⟨b,rfl⟩
  | cons a rest ih =>
    obtain ⟨next,step⟩ := each b a (mem_cons_self ..)
    obtain ⟨last,done⟩ := ih (fun b a inside => each b a (mem_cons_of_mem _ inside)) next
    exact ⟨last,by simp [foldlM_cons,step,done]⟩

theorem sliceSome {path start} (inside : start ≤ path.length) :
    Nibbles.slice path start = some (path.drop start) := if_pos inside

theorem commonLenSome {first others depth} (head : depth ≤ first.length)
    (inside : ∀ item ∈ others, depth ≤ item.1.length) :
    ∃ common, commonLen first others depth = some common ∧ depth + common ≤ first.length := by
  let lengths := others.map (fun item => Nibbles.commonPrefixLen (item.1.drop depth) (first.drop depth))
  have all : others.mapM (fun item => do
      let path ← Nibbles.slice item.1 depth
      some (Nibbles.commonPrefixLen path (first.drop depth))) = some lengths :=
    mapMSome (fun item member => by simp [sliceSome (inside item member)])
  refine ⟨lengths.min?.getD 0,?_,?_⟩
  · simp only [commonLen,sliceSome head,bind,Option.bind] at *
    rw [all]
  · cases smallest : lengths.min? with
    | none => simpa using head
    | some least =>
      obtain ⟨item,_,same⟩ := mem_map.mp (min?_mem smallest)
      have bound : Nibbles.commonPrefixLen (item.1.drop depth) (first.drop depth) ≤ _ := PrefixTree.sharedBound _ _
      rw [same,length_drop] at bound
      simp only [Option.getD_some]
      omega

theorem groupInside {items depth width nibble}
    (keys : ∀ item ∈ items, item.1.length = width) (some' : group items depth nibble ≠ []) :
    depth < width ∧ ∀ item ∈ group items depth nibble, item.1.length = width := by
  have sub : ∀ item ∈ group items depth nibble, item ∈ items ∧ item.1[depth]? = some nibble := by
    intro item member
    have chosen := mem_filter.mp member
    exact ⟨chosen.1,by simpa using chosen.2⟩
  obtain ⟨item,member⟩ := List.exists_mem_of_ne_nil _ some'
  have bound := (List.getElem?_eq_some_iff.mp (sub item member).2).1
  rw [keys item (sub item member).1] at bound
  exact ⟨bound,fun item member => keys item (sub item member).1⟩

theorem buildNodeSome (keccak) {width} (fuel) (items) (depth)
    (nodes) (keys : ∀ item ∈ items, item.1.length = width) (inside : depth ≤ width)
    (enough : width - depth < fuel) : ∃ built, buildNode keccak fuel items depth nodes = some built := by
  induction fuel generalizing items depth nodes with
  | zero => omega
  | succ fuel ih =>
    match items with
    | [] => exact ⟨_,rfl⟩
    | [(key,value)] =>
      have fits : depth ≤ key.length := by
        rw [keys (key,value) (by simp)]
        exact inside
      simp only [buildNode,sliceSome fits]
      exact ⟨_,rfl⟩
    | first::second::rest =>
      have head := keys first (by simp)
      have others : ∀ item ∈ second::rest, depth ≤ item.1.length := by
        intro item member
        rw [keys item (mem_cons_of_mem _ member)]
        exact inside
      -- The common part ends inside the keys, and a branch below it consumes one nibble more.
      obtain ⟨common,found,fits⟩ := commonLenSome (head ▸ inside) others
      rw [head] at fits
      simp only [buildNode,found,bind,Option.bind]
      split
      · have range : Nibbles.sliceRange first.1 depth (depth+common) =
            some ((first.1.take (depth+common)).drop depth) := if_pos ⟨by omega,by omega⟩
        obtain ⟨below,built⟩ := ih (first::second::rest) (depth+common) nodes keys fits (by omega)
        simp only [range,built]
        exact ⟨_,rfl⟩
      · have each : ∀ built, ∀ nibble ∈ List.range 16, ∃ next,
            buildChild (fun inside nodes => buildNode keccak fuel inside (depth+1) nodes)
              (first::second::rest) depth built nibble = some next := by
          intro built nibble _
          unfold buildChild
          split
          · exact ⟨_,rfl⟩
          · rename_i some'
            obtain ⟨below,same⟩ := groupInside keys some'
            obtain ⟨child,done⟩ := ih _ (depth+1) built.2 same below (by omega)
            simp only [done,bind,Option.bind]
            exact ⟨_,rfl⟩
        obtain ⟨children,done⟩ := foldlMSome each ([],nodes)
        simp only [done]
        exact ⟨_,rfl⟩

theorem accountItemsKeys (keccak) (accounts) : ∀ item ∈ accountItems keccak accounts, item.1.length = 64 := by
  intro item member
  obtain ⟨address,_,made⟩ := mem_filterMap.mp ((mem_insertionSort _).mp member)
  obtain ⟨account,_,rfl⟩ := Option.map_eq_some_iff.mp made
  simp [accountKey,Nibbles.fromBytesLength,wordBytesLength]

theorem rebuiltSome (keccak) (accounts) : ∃ built, rebuilt keccak accounts = some built := by
  unfold rebuilt
  split
  · exact ⟨_,rfl⟩
  · exact buildNodeSome keccak buildFuel _ 0 _ (accountItemsKeys keccak accounts) (by omega) (by decide)

structure StateConfig where
  maxStorageSlotsPerContract : Nat := 10000
  deriving DecidableEq, Repr

inductive StateError where
  | insufficientBalance (required available : U128)
  | invalidNonce (expected actual : U64)
  | nonceGap (expected actual : U64)
  | storageLimitExceeded (address : Address)
  | unauthorizedSender (sender : UInt8)
  | databaseError (message : String)
  | proofGenerationFailed (address : Address)
  deriving DecidableEq, Repr

structure PatriciaMerkleTrie where
  nodes : Nodes
  root : Hash
  accounts : KeyedMap Address AccountState
  storage : KeyedMap (Address × StorageKey) StorageValue
  storageCounts : KeyedMap Address Nat
  config : StateConfig
  deriving DecidableEq

abbrev Outcome (α : Type) := Except (Fault StateError) α

namespace PatriciaMerkleTrie
variable (keccak : Bytes → Hash)

def withConfig (config : StateConfig) : PatriciaMerkleTrie where
  nodes := (∅ : Nodes).insert emptyTrieRoot .empty
  root := emptyTrieRoot
  accounts := ∅
  storage := ∅
  storageCounts := ∅
  config := config

variable (t : PatriciaMerkleTrie)

def getBalance (address : Address) : U128 :=
  ((t.accounts.lookup address).map AccountState.balance).getD 0

def getNonce (address : Address) : U64 :=
  ((t.accounts.lookup address).map AccountState.nonce).getD 0

def rebuildTrie : Outcome Unit × PatriciaMerkleTrie :=
  match rebuilt keccak t.accounts with
  | some (root,nodes) => (.ok (),{t with root := root, nodes := nodes})
  | none => (.error .panic,t)

variable (address : Address)

def insertAccount (account : AccountState) :
    Outcome Unit × PatriciaMerkleTrie :=
  rebuildTrie keccak {t with accounts := t.accounts.insert address account}

def setBalance (balance : U128) :
    Outcome Unit × PatriciaMerkleTrie :=
  let account := (t.accounts.lookup address).getD {}
  rebuildTrie keccak {t with accounts := t.accounts.insert address {account with balance := balance}}

def incrementNonce : Outcome Unit × PatriciaMerkleTrie :=
  -- The default account is entered even when its counter cannot be raised.
  let account := (t.accounts.lookup address).getD {}
  if account.nonce = BitVec.allOnes 64 then
    (.error (.error (.invalidNonce account.nonce (BitVec.allOnes 64))),
      {t with accounts := t.accounts.insert address account})
  else
    rebuildTrie keccak {t with accounts := t.accounts.insert address {account with nonce := account.nonce + 1}}

def applyBalanceChange (delta : BitVec 128) :
    Outcome Unit × PatriciaMerkleTrie :=
  let current := t.getBalance address
  if delta.msb = false then setBalance keccak t address (U128.saturatingAdd current delta)
  else
    let required := -delta
    if current < required then (.error (.error (.insufficientBalance required current)),t)
    else setBalance keccak t address (current - required)

def applyNonceIncrement (expectedNonce : U64) :
    Outcome Unit × PatriciaMerkleTrie :=
  let current := t.getNonce address
  if current ≠ expectedNonce then
    if current + 1 < expectedNonce then (.error (.error (.nonceGap (current + 1) expectedNonce)),t)
    else (.error (.error (.invalidNonce current expectedNonce)),t)
  else incrementNonce keccak t address

variable (contract : Address)

def computeStorageRoot : Hash :=
  let keys := ascending ((t.storage.keys.filter (fun slot => slot.1 = contract)).image Prod.snd)
  match keys with
  | [] => emptyTrieRoot
  | _ => keccak (keys.flatMap (fun key =>
      wordBytes key ++ wordBytes ((t.storage.lookup (contract,key)).getD 0)))

def updateStorageRoot : PatriciaMerkleTrie :=
  match t.accounts.lookup contract with
  | none => t
  | some account =>
    let updated := {account with storageRoot := computeStorageRoot keccak t contract}
    {t with accounts := t.accounts.insert contract updated}

def setStorage (key : StorageKey) (value : StorageValue) :
    Outcome Unit × PatriciaMerkleTrie :=
  let count := (t.storageCounts.lookup contract).getD 0
  let fresh := (t.storage.lookup (contract,key)).isNone
  if fresh ∧ count ≥ t.config.maxStorageSlotsPerContract then
    (.error (.error (.storageLimitExceeded contract)),
      {t with storageCounts := t.storageCounts.insert contract count})
  else
    let counted := {t with
      storageCounts := t.storageCounts.insert contract (if fresh then count + 1 else count)
      storage := t.storage.insert (contract,key) value}
    rebuildTrie keccak (counted.updateStorageRoot keccak contract)

def deleteStorage (key : StorageKey) :
    Outcome Unit × PatriciaMerkleTrie :=
  match t.storage.lookup (contract,key) with
  | none => (.ok (),t)
  | some _ =>
    let counts := match t.storageCounts.lookup contract with
      | some count => t.storageCounts.insert contract (count - 1)
      | none => t.storageCounts
    let removed := {t with storage := t.storage.erase (contract,key), storageCounts := counts}
    rebuildTrie keccak (removed.updateStorageRoot keccak contract)

def Rebuilt : Prop := rebuilt keccak t.accounts = some (t.root,t.nodes)

variable {keccak}

theorem rebuildTrieOk (t) : ∃ root nodes, rebuilt keccak t.accounts = some (root,nodes) ∧
      rebuildTrie keccak t = (.ok (),{t with root := root, nodes := nodes}) := by
  obtain ⟨⟨root,nodes⟩,done⟩ := rebuiltSome keccak t.accounts
  exact ⟨root,nodes,done,by simp [rebuildTrie,done]⟩

theorem rebuildRebuilt (t : PatriciaMerkleTrie) : (t.rebuildTrie keccak).2.Rebuilt keccak := by
  obtain ⟨root,nodes,done,ok⟩ := rebuildTrieOk t
  rw [ok]
  exact done

theorem rebuildKeeps (t : PatriciaMerkleTrie) :
    (t.rebuildTrie keccak).2.accounts = t.accounts ∧ (t.rebuildTrie keccak).2.storage = t.storage ∧
      (t.rebuildTrie keccak).2.storageCounts = t.storageCounts := by
  obtain ⟨root,nodes,_,ok⟩ := @rebuildTrieOk keccak t
  rw [ok]
  exact ⟨rfl,rfl,rfl⟩

end PatriciaMerkleTrie

inductive Operation where
  | insertAccount (address : Address) (account : AccountState)
  | setBalance (address : Address) (balance : U128)
  | incrementNonce (address : Address)
  | applyBalanceChange (address : Address) (delta : BitVec 128)
  | applyNonceIncrement (address : Address) (expectedNonce : U64)
  | setStorage (contract : Address) (key : StorageKey) (value : StorageValue)
  | deleteStorage (contract : Address) (key : StorageKey)
  deriving DecidableEq, Repr

namespace PatriciaMerkleTrie

def perform (keccak : Bytes → Hash) (t : PatriciaMerkleTrie) : Operation → PatriciaMerkleTrie
  | .insertAccount address account => (t.insertAccount keccak address account).2
  | .setBalance address balance => (t.setBalance keccak address balance).2
  | .incrementNonce address => (t.incrementNonce keccak address).2
  | .applyBalanceChange address delta => (t.applyBalanceChange keccak address delta).2
  | .applyNonceIncrement address expected => (t.applyNonceIncrement keccak address expected).2
  | .setStorage contract key value => (t.setStorage keccak contract key value).2
  | .deleteStorage contract key => (t.deleteStorage keccak contract key).2

variable {keccak : Bytes → Hash}

theorem incrementRebuilt {t : PatriciaMerkleTrie} (current : t.Rebuilt keccak) (address) :
    (t.incrementNonce keccak address).2.Rebuilt keccak := by
  unfold incrementNonce
  dsimp only
  split
  · rename_i full
    -- a full counter belongs to a stored account, so the entry that is inserted is already there
    cases found : t.accounts.lookup address with
    | none =>
      rw [found] at full
      exact absurd full (by decide)
    | some account =>
      have same := KeyedMap.insertSame found
      simp only [Option.getD_some,same]
      exact current
  · exact rebuildRebuilt _

theorem performRebuilt {t : PatriciaMerkleTrie} (current : t.Rebuilt keccak) (op) :
    (t.perform keccak op).Rebuilt keccak := by
  cases op with
  | insertAccount address account => exact rebuildRebuilt _
  | setBalance address balance => exact rebuildRebuilt _
  | incrementNonce address => exact incrementRebuilt current address
  | applyBalanceChange address delta =>
    unfold perform applyBalanceChange
    dsimp only
    split
    · exact rebuildRebuilt _
    · split
      · exact current
      · exact rebuildRebuilt _
  | applyNonceIncrement address expected =>
    unfold perform applyNonceIncrement
    dsimp only
    split
    · split <;> exact current
    · exact incrementRebuilt current address
  | setStorage contract key value =>
    unfold perform setStorage
    dsimp only
    split
    · exact current
    · exact rebuildRebuilt _
  | deleteStorage contract key =>
    rw [perform,deleteStorage]
    cases t.storage.lookup (contract,key) with
    | none => exact current
    | some value => exact rebuildRebuilt _

end PatriciaMerkleTrie
end QuantumChain.State
