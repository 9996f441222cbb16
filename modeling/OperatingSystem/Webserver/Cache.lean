import OperatingSystem.Library.Heap
import OperatingSystem.Webserver.Request
import OperatingSystem.Webserver.Server

/-!
# The file cache of `server_thread.c`

Hash chains, the list in order of use and the file data are cells in heaps, and a pointer is an
address or `NULL`.  The bucket array is indexed by the computed key.  Sizes and their sums are below
`2 ^ 31`, so they are computed without overflow.
-/

namespace OperatingSystem.Webserver

/-- An entry of the hash table; `word` points to the name in a `file_data`. -/
structure WordsElement where
  word : Nat
  sizeofword : Int
  key : Int
  refCount : Int
  data : Nat
  next : Option Nat
  listLocation : Option Nat
  deriving DecidableEq, Repr

structure LRUNode where
  prv : Option Nat
  next : Option Nat
  data : Nat
  deriving DecidableEq, Repr

/-- The fields of `struct server` for the cache.  `head` and `tail` are those of `lq`. -/
structure Cache where
  maxCacheSize : Int
  currentSize : Int
  ht : Int → Option Nat
  head : Option Nat
  tail : Option Nat
  elements : Heap WordsElement
  nodes : Heap LRUNode
  datas : Heap FileData

def cacheInit (maxCacheSize : Int) : Cache where
  maxCacheSize := maxCacheSize
  currentSize := 0
  ht := fun _ => none
  head := none
  tail := none
  elements := .empty
  nodes := .empty
  datas := .empty

section Memory

variable {α : Type}

def read (h : Heap α) (a : Nat) : Except Fault α :=
  match h.cells a with
  | some x => .ok x
  | none => .error .useAfterFree

def store (h : Heap α) (a : Nat) (f : α → α) : Except Fault (Heap α) := do
  let _ ← read h a
  return h.modify a f

def pointer (p : Option Nat) : Except Fault Nat :=
  match p with
  | some a => .ok a
  | none => .error .nullDereference

end Memory

/-- `hash` on a 32-bit `int`; `*str` is a signed `char`. -/
def hash (str : Name) : Int32 := str.foldl (fun hash c => ((hash <<< 5) + hash) + c.toInt8.toInt32) 5381

def hashKey (name : Name) (maxCacheSize : Int) : Int := (hash name).toInt.tmod maxCacheSize

namespace Cache

variable (c : Cache)

def pushbackLRU (pt : Nat) : Except Fault Cache :=
  match c.head with
  | none => do
      let nodes ← store c.nodes pt fun n => { n with prv := none, next := none }
      return { c with nodes, head := some pt, tail := some pt }
  | some _ => do
      let tail ← pointer c.tail
      let nodes ← store c.nodes tail fun n => { n with next := some pt }
      let nodes ← store nodes pt fun n => { n with prv := some tail }
      let nodes ← store nodes pt fun n => { n with next := none }
      return { c with nodes, tail := some pt }

def swapOut (node : Nat) (command : Int) : Except Fault Cache :=
  if command = 0 then do
    let _ ← read c.nodes node
    return { c with nodes := c.nodes.free node }
  else c.pushbackLRU node

/-- `command` 0 frees the node, 1 moves it to the end. -/
def deleteSwapNode (node : Nat) (command : Int) : Except Fault Cache := do
  if some node = c.head then
    let first ← read c.nodes node
    match first.next with
    | some head =>
        let nodes ← store c.nodes head fun n => { n with prv := none }
        swapOut { c with nodes, head := some head } node command
    | none => swapOut { c with head := none, tail := none } node command
  else if some node = c.tail then
    if command = 0 then
      let last ← read c.nodes node
      let tail ← pointer last.prv
      let nodes ← store c.nodes tail fun n => { n with next := none }
      swapOut { c with nodes, tail := some tail } node 0
    else return c
  else
    let middle ← read c.nodes node
    let before ← pointer middle.prv
    let nodes ← store c.nodes before fun n => { n with next := middle.next }
    let after ← pointer middle.next
    let nodes ← store nodes after fun n => { n with prv := some before }
    swapOut { c with nodes } node command

def findBefore (node : Nat) : Nat → Option Nat → Except Fault Nat
  | 0, _ => .error .endless
  | _ + 1, none => .error .nullDereference
  | fuel + 1, some before => do
      let element ← read c.elements before
      if element.next = some node then return before
      findBefore node fuel element.next

def deleteHash (node : Nat) : Except Fault Cache := do
  let element ← read c.elements node
  if c.ht element.key = some node then
    return { c with ht := Function.update c.ht element.key element.next, elements := c.elements.free node }
  else
    let before ← c.findBefore node (c.elements.next + 1) (c.ht element.key)
    let elements ← store c.elements before fun e => { e with next := element.next }
    return { c with elements := elements.free node }

def lastOf : Nat → Nat → Except Fault Nat
  | 0, _ => .error .endless
  | fuel + 1, current => do
      let element ← read c.elements current
      match element.next with
      | some next => lastOf fuel next
      | none => return current

def chainElement (key : Int) (node : Nat) : Except Fault Cache :=
  match c.ht key with
  | none => return { c with ht := Function.update c.ht key (some node) }
  | some current => do
      let last ← c.lastOf (c.elements.next + 1) current
      let elements ← store c.elements last fun e => { e with next := some node }
      return { c with elements }

def cacheInsert (data : Nat) : Except Fault (Cache × Nat) := do
  let file ← read c.datas data
  let newElement := c.elements.next
  let key := hashKey file.fileName c.maxCacheSize
  let element : WordsElement := ⟨data, file.fileSize, key, 0, data, none, none⟩
  let c := { c with elements := c.elements.alloc element }
  let c ← c.chainElement key newElement
  let newNodeLRU := c.nodes.next
  let c := { c with nodes := c.nodes.alloc ⟨none, none, newElement⟩ }
  let elements ← store c.elements newElement fun e => { e with listLocation := some newNodeLRU }
  let c ← pushbackLRU { c with elements } newNodeLRU
  return (c, newElement)

/-- The loop of `cache_lookup`: it walks the chain but compares the name with its head's. -/
def lookupLoop (key : Name) (hashKey : Int) : Nat → Option Nat → Except Fault (Option Nat)
  | 0, _ => .error .endless
  | _ + 1, none => return none
  | fuel + 1, some iter => do
      let head ← read c.elements (← pointer (c.ht hashKey))
      let word ← read c.datas head.word
      if key = word.fileName then return some iter
      let element ← read c.elements iter
      lookupLoop key hashKey fuel element.next

def cacheLookup (data : Nat) : Except Fault (Option Nat) := do
  let file ← read c.datas data
  let key := hashKey file.fileName c.maxCacheSize
  c.lookupLoop file.fileName key (c.elements.next + 1) (c.ht key)

def unused : Nat → Option Nat → Except Fault (Option Nat)
  | 0, _ => .error .endless
  | _ + 1, none => return none
  | fuel + 1, some wasterNode => do
      let node ← read c.nodes wasterNode
      let element ← read c.elements node.data
      if element.refCount ≠ 0 then unused fuel node.next else return some wasterNode

def cacheEvict (amountEvict : Int) : Except Fault (Option Cache) := do
  match ← c.unused (c.nodes.next + 1) c.head with
  | none => return none
  | some wasterNode =>
      let node ← read c.nodes wasterNode
      let element ← read c.elements node.data
      if amountEvict ≤ element.sizeofword then
        let c ← deleteHash { c with currentSize := c.currentSize - element.sizeofword } node.data
        return some (← c.deleteSwapNode wasterNode 0)
      else return none

def useElement (check : Nat) : Except Fault (Cache × Nat) := do
  let elements ← store c.elements check fun e => { e with refCount := e.refCount + 1 }
  let element ← read elements check
  let node ← pointer element.listLocation
  let c ← deleteSwapNode { c with elements } node 1
  return (c, element.data)

def insertElement (data : Nat) (fileSize : Int) : Except Fault (Option (Cache × Nat)) := do
  let (c, check) ← cacheInsert { c with currentSize := c.currentSize + fileSize } data
  return some (c, check)

def cacheStore (data : Nat) : Except Fault (Option (Cache × Nat)) := do
  let file ← read c.datas data
  if c.currentSize + file.fileSize ≤ c.maxCacheSize then c.insertElement data file.fileSize
  else
    let amountE := file.fileSize - (c.maxCacheSize - c.currentSize)
    match ← c.cacheEvict amountE with
    | none => return none
    | some c => c.insertElement data file.fileSize

end Cache

/-- Where a request stands in `do_server_request`: before its first critical section, its read of
the file, its second critical section, its response from the cache or from its own data, before the
decrement of the reference count. -/
inductive Place
  | looking (data : Nat)
  | reading (data : Nat)
  | inserting (data : Nat)
  | sending (check data : Nat)
  | sendingOwn (data : Nat)
  | releasing (check : Nat)
  | done
  deriving DecidableEq, Repr

structure Request where
  name : Name
  place : Place
  deriving DecidableEq, Repr

structure Serving where
  cache : Cache
  requests : List Request

def servingInit (maxCacheSize : Int) : Serving := ⟨cacheInit maxCacheSize, []⟩

inductive CacheAction
  | start (name : Name)
  | run (r : Nat)
  deriving DecidableEq, Repr

inductive CacheEvent
  | used (element : Nat)
  | responded (name : Name) (response : Response)
  deriving DecidableEq, Repr

namespace Serving

variable (files : Files) (s : Serving)

def setPlace (r : Nat) (request : Request) (place : Place) (cache : Cache) : Serving :=
  ⟨cache, s.requests.set r { request with place }⟩

def firstSection (r : Nat) (request : Request) (data : Nat) : Except Fault (Serving × Option CacheEvent) := do
  match ← s.cache.cacheLookup data with
  | none => return (s.setPlace r request (.reading data) s.cache, none)
  | some check =>
      let (c, found) ← s.cache.useElement check
      return (s.setPlace r request (.sending check found) c, some (.used check))

def readSection (r : Nat) (request : Request) (data : Nat) (next : Nat → Place) :
    Except Fault (Serving × Option CacheEvent) := do
  let file ← read s.cache.datas data
  match requestReadfile files file with
  | .error response => return (s.setPlace r request .done s.cache, some (.responded request.name response))
  | .ok file =>
      let datas ← store s.cache.datas data fun _ => file
      return (s.setPlace r request (next data) { s.cache with datas }, none)

def secondSection (r : Nat) (request : Request) (data : Nat) : Except Fault (Serving × Option CacheEvent) := do
  match ← s.cache.cacheLookup data with
  | some check =>
      let _ ← read s.cache.datas data
      let (c, found) ← Cache.useElement { s.cache with datas := s.cache.datas.free data } check
      return (s.setPlace r request (.sending check found) c, some (.used check))
  | none =>
      match ← s.cache.cacheStore data with
      | none => return (s.setPlace r request (.sendingOwn data) s.cache, none)
      | some (c, check) =>
          let (c, found) ← c.useElement check
          return (s.setPlace r request (.sending check found) c, some (.used check))

def send (request : Request) (data : Nat) : Except Fault CacheEvent := do
  let file ← read s.cache.datas data
  return .responded request.name (requestSendfile file)

def runRequest (r : Nat) (request : Request) : Except Fault (Serving × Option CacheEvent) :=
  match request.place with
  | .looking data =>
      if 0 < s.cache.maxCacheSize then s.firstSection r request data
      else s.readSection files r request data .sendingOwn
  | .reading data => s.readSection files r request data .inserting
  | .inserting data => s.secondSection r request data
  | .sending check data => do
      let event ← s.send request data
      return (s.setPlace r request (.releasing check) s.cache, some event)
  | .sendingOwn data => do
      let event ← s.send request data
      return (s.setPlace r request .done { s.cache with datas := s.cache.datas.free data }, some event)
  | .releasing check => do
      let elements ← store s.cache.elements check fun e => { e with refCount := e.refCount - 1 }
      return (s.setPlace r request .done { s.cache with elements }, none)
  | .done => .error .notEnabled

def step (s : Serving) (action : CacheAction) : Except Fault (Serving × Option CacheEvent) :=
  match action with
  | .start name =>
      let request : Request := ⟨name, .looking s.cache.datas.next⟩
      .ok (⟨{ s.cache with datas := s.cache.datas.alloc (fileDataInit name) }, s.requests ++ [request]⟩, none)
  | .run r =>
      match s.requests[r]? with
      | some request => s.runRequest files r request
      | none => .error .notEnabled

end Serving

abbrev CacheRuns (files : Files) (maxCacheSize : Int) (labels : List (CacheAction × Option CacheEvent))
    (s : Serving) : Prop :=
  Transition.Run (Transition.Takes (Serving.step files)) (servingInit maxCacheSize) labels s

end OperatingSystem.Webserver
