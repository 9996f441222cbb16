import OperatingSystem.Library.Run
import OperatingSystem.Webserver.Sections

namespace OperatingSystem.Webserver

def Place.held : Place → Option Nat
  | .sending check _ => some check
  | .releasing check => some check
  | _ => none

def Place.own : Place → Option Nat
  | .looking data => some data
  | .reading data => some data
  | .inserting data => some data
  | .sendingOwn data => some data
  | _ => none

def Supplied (files : Files) (c : Cache) (name : Name) : Place → Prop
  | .looking data => c.datas.cells data = some (fileDataInit name)
  | .reading data => c.datas.cells data = some (fileDataInit name)
  | .inserting data => ∃ file, c.datas.cells data = some file ∧ requestReadfile files (fileDataInit name) = .ok file
  | .sendingOwn data => ∃ file, c.datas.cells data = some file ∧ requestReadfile files (fileDataInit name) = .ok file
  | .sending check data => ∃ element file, c.elements.cells check = some element ∧ element.data = data ∧
      c.datas.cells data = some file ∧ requestReadfile files (fileDataInit name) = .ok file
  | .releasing check => ∃ element, c.elements.cells check = some element
  | .done => True

structure Accounted (files : Files) (c : Cache) (requests : List Request) : Prop where
  counted : ∀ e, c.count e = requests.countP fun q : Request => q.place.held = some e
  supplied : ∀ q ∈ requests, Supplied files c q.name q.place
  apart : ∀ (r r' : Nat) (q q' : Request) d, requests[r]? = some q → requests[r']? = some q' → q.place.own = some d →
    q'.place.own = some d → r = r'
  unshared : ∀ q ∈ requests, ∀ e x, c.elements.cells e = some x → q.place.own ≠ some x.data

section Accounted

variable {files : Files} {c c' : Cache} {requests : List Request} {r : Nat} {q : Request} {p : Place}

theorem Place.own_used {name : Name} {d : Nat} (supplied : Supplied files c name p) (own : p.own = some d) :
    ∃ file, c.datas.cells d = some file := by
  cases p with
  | looking data => exact ⟨_, Option.some.inj own ▸ supplied⟩
  | reading data => exact ⟨_, Option.some.inj own ▸ supplied⟩
  | inserting data =>
      obtain ⟨file, used, -⟩ := supplied
      exact ⟨file, Option.some.inj own ▸ used⟩
  | sendingOwn data =>
      obtain ⟨file, used, -⟩ := supplied
      exact ⟨file, Option.some.inj own ▸ used⟩
  | sending check data => cases own
  | releasing check => cases own
  | done => cases own

theorem Supplied.frame {name : Name} (supplied : Supplied files c name p)
    (datas : ∀ d, p.own = some d → c'.datas.cells d = c.datas.cells d)
    (elements : ∀ e x, p.held = some e → c.elements.cells e = some x →
      c'.datas.cells x.data = c.datas.cells x.data ∧ ∃ x', c'.elements.cells e = some x' ∧ x'.data = x.data) :
    Supplied files c' name p := by
  cases p with
  | looking data => exact (datas data rfl).trans supplied
  | reading data => exact (datas data rfl).trans supplied
  | inserting data =>
      obtain ⟨file, used, read⟩ := supplied
      exact ⟨file, (datas data rfl).trans used, read⟩
  | sendingOwn data =>
      obtain ⟨file, used, read⟩ := supplied
      exact ⟨file, (datas data rfl).trans used, read⟩
  | sending check data =>
      obtain ⟨x, file, used, rfl, stored, read⟩ := supplied
      obtain ⟨kept, x', used', same⟩ := elements check x rfl used
      exact ⟨x', file, used', same, kept.trans stored, read⟩
  | releasing check =>
      obtain ⟨x, used⟩ := supplied
      obtain ⟨-, x', used', -⟩ := elements check x rfl used
      exact ⟨x', used'⟩
  | done => trivial

theorem Accounted.busy (accounted : Accounted files c requests) {q : Request} {e : Nat} {x : WordsElement} (member : q ∈ requests)
    (held : q.place.held = some e) (used : c.elements.cells e = some x) : x.refCount ≠ 0 := by
  have count := accounted.counted e
  rw [count_eq used] at count
  have positive : 0 < requests.countP fun q : Request => q.place.held = some e :=
    List.countP_pos_iff.mpr ⟨q, member, decide_eq_true held⟩
  omega

/-- A step of one request: it may change its own data, give it to the cache, and take or give back
references. -/
structure Stepped (c c' : Cache) (q : Request) (p : Place) : Prop where
  datas : ∀ d, q.place.own ≠ some d → c'.datas.cells d = c.datas.cells d
  kept : ∀ e x, c.elements.cells e = some x → x.refCount ≠ 0 → ∃ x', c'.elements.cells e = some x' ∧ x'.lasting = x.lasting
  count : ∀ e, c'.count e + (if q.place.held = some e then 1 else 0) = c.count e + if p.held = some e then 1 else 0
  own : p.own = none ∨ p.own = q.place.own
  source : ∀ e x', c'.elements.cells e = some x' → (q.place.own = some x'.data ∧ p.own = none) ∨
    ∃ x, c.elements.cells e = some x ∧ x'.data = x.data

theorem Accounted.step (accounted : Accounted files c requests) (here : requests[r]? = some q) (stepped : Stepped c c' q p)
    (supplied : Supplied files c' q.name p) : Accounted files c' (requests.set r { q with place := p }) := by
  have inside : r < requests.length := (List.getElem?_eq_some_iff.mp here).1
  have self : requests[r] = q := (List.getElem?_eq_some_iff.mp here).2
  have member : q ∈ requests := List.mem_of_getElem? here
  have split : ∀ r' q', (requests.set r { q with place := p })[r']? = some q' →
      (r' = r ∧ q' = { q with place := p }) ∨ (r' ≠ r ∧ requests[r']? = some q') := by
    intro r' q' found
    by_cases same : r' = r
    · subst same
      rw [List.getElem?_set_self inside] at found
      exact Or.inl ⟨rfl, (Option.some.inj found).symm⟩
    · rw [List.getElem?_set_ne (Ne.symm same)] at found
      exact Or.inr ⟨same, found⟩
  have apart : ∀ r' q' d, r' ≠ r → requests[r']? = some q' → q'.place.own = some d → q.place.own ≠ some d := by
    intro r' q' d other found own own'
    exact other (accounted.apart r' r q' q d found here own own')
  refine ⟨fun e => ?_, fun q' there => ?_, fun r1 r2 q1 q2 d found1 found2 own1 own2 => ?_, fun q' there e x' used own => ?_⟩
  · have step := stepped.count e
    have before := accounted.counted e
    have positive : q.place.held = some e → 0 < requests.countP fun q : Request => q.place.held = some e := fun held =>
      List.countP_pos_iff.mpr ⟨q, member, decide_eq_true held⟩
    rw [List.countP_set inside, self]
    simp only [decide_eq_true_eq]
    by_cases holds : q.place.held = some e
    · have atLeast := positive holds
      rw [if_pos holds] at step ⊢
      split_ifs at step ⊢ <;> omega
    · rw [if_neg holds] at step ⊢
      split_ifs at step ⊢ <;> omega
  · obtain ⟨r', found⟩ := List.getElem?_of_mem there
    rcases split r' q' found with ⟨rfl, rfl⟩ | ⟨other, found'⟩
    · exact supplied
    · have old : q' ∈ requests := List.mem_of_getElem? found'
      refine (accounted.supplied q' old).frame (fun d own => ?_) fun e x held used => ⟨?_, ?_⟩
      · exact stepped.datas d (apart r' q' d other found' own)
      · exact stepped.datas x.data (accounted.unshared q member e x used)
      · obtain ⟨x', used', same⟩ := stepped.kept e x used (accounted.busy old held used)
        refine ⟨x', used', ?_⟩
        rw [lasting_eq same]
  · rcases split r1 q1 found1 with ⟨rfl, rfl⟩ | ⟨other1, found1'⟩
    · rcases split r2 q2 found2 with ⟨rfl, -⟩ | ⟨other2, found2'⟩
      · rfl
      · rcases stepped.own with none | same
        · cases none.symm.trans own1
        · exact (apart r2 q2 d other2 found2' own2 (same ▸ own1)).elim
    · rcases split r2 q2 found2 with ⟨rfl, rfl⟩ | ⟨other2, found2'⟩
      · rcases stepped.own with none | same
        · cases none.symm.trans own2
        · exact (apart r1 q1 d other1 found1' own1 (same ▸ own2)).elim
      · exact accounted.apart r1 r2 q1 q2 d found1' found2' own1 own2
  · obtain ⟨r', found⟩ := List.getElem?_of_mem there
    rcases split r' q' found with ⟨rfl, rfl⟩ | ⟨other, found'⟩
    · rcases stepped.source e x' used with ⟨-, gone⟩ | ⟨x, before, same⟩
      · cases gone.symm.trans own
      · rcases stepped.own with none | kept
        · cases none.symm.trans own
        · exact accounted.unshared q member e x before (kept ▸ same ▸ own)
    · rcases stepped.source e x' used with ⟨mine, -⟩ | ⟨x, before, same⟩
      · exact apart r' q' x'.data other found' own mine
      · exact accounted.unshared q' (List.mem_of_getElem? found') e x before (same ▸ own)

end Accounted

end OperatingSystem.Webserver
