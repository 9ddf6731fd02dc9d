import Anon.Dispatcher.Dispatch
import Anon.Lib.Except

/-!
# What the responders answer

A responder takes the request that its path matches, and answers it if the items it looks for
can be had. Of the responders of a bucket, the first one that takes the request decides.

* `Accepts`, `ItemsFound`: whether a mapping takes a request, and whether it can answer it.
* `respondFirst_eq`: the loop over the responders.
* `RequestDispatcher.Settled`: the mapping that answers.
-/

namespace Anon.Dispatcher

variable {F : Type} {fullMatch : Bytes → Bytes → Option (List Bytes)} {h : RequestHelper}
  {request : HttpRequest} {isOptions : Bool} {m : MapResponder F} {ms : List (MapResponder F)}

/-- The regular expression matches the whole path, with a nonempty value for each variable. -/
def Accepts (fullMatch : Bytes → Bytes → Option (List Bytes)) (h : RequestHelper) (path : Bytes) :
    Prop :=
  (pathParams fullMatch h path).isSome = true

instance (h : RequestHelper) (path : Bytes) : Decidable (Accepts fullMatch h path) :=
  inferInstanceAs (Decidable ((pathParams fullMatch h path).isSome = true))

/-- The query can be decoded if it is asked for anything, and the headers are there, which a
preflight request need not have. -/
def ItemsFound (h : RequestHelper) (request : HttpRequest) (isOptions : Bool) : Prop :=
  (h.queryStringItems ≠ [] → ∃ quer, percentDecode request.query = .ok quer) ∧
  (isOptions = false → ∀ item ∈ h.headerItems, request.containsHeader item = true)

/-- The headers are found if they are all there. -/
theorem headerValues_eq_ok {items : List Bytes} {values : List Bytes} :
    headerValues request items = .ok values ↔
      (∀ item ∈ items, request.containsHeader item = true) ∧
        values = items.map request.getHeader := by
  induction items generalizing values with
  | nil =>
    rw [headerValues, List.map_nil, Except.ok.injEq, eq_comm]
    simp
  | cons item items ih =>
    rw [headerValues]
    split
    · next hitem =>
      rw [bind_eq_ok]
      constructor
      · intro hok
        obtain ⟨rest, hrest, hvalues⟩ := hok
        obtain ⟨hall, hmap⟩ := ih.mp hrest
        refine ⟨List.forall_mem_cons.mpr ⟨hitem, hall⟩, ?_⟩
        rw [← Except.ok.inj hvalues, hmap, List.map_cons]
      · intro hall
        obtain ⟨hall, hmap⟩ := hall
        refine ⟨_, ih.mpr ⟨(List.forall_mem_cons.mp hall).2, rfl⟩, ?_⟩
        rw [hmap, List.map_cons]
        rfl
    · next hitem =>
      constructor
      · intro hok
        exact absurd hok (by simp)
      · intro hall
        exact absurd ((List.forall_mem_cons.mp hall.1).1) hitem

theorem extractParams_of_not_accepts (hno : ¬Accepts fullMatch h request.path) :
    extractParams fullMatch h request isOptions = .ok none := by
  have hnone : pathParams fullMatch h request.path = none := by
    simpa [Accepts] using hno
  rw [extractParams, hnone]

/-- The values of the query string items, if they can be had. -/
theorem queryParams_eq_ok {values : List Bytes} : queryParams h request = .ok values ↔
    (h.queryStringItems = [] ∧ values = []) ∨
      (h.queryStringItems ≠ [] ∧ ∃ quer, percentDecode request.query = .ok quer ∧
        values = h.queryStringItems.map (queryValue quer)) := by
  unfold queryParams
  by_cases hitems : h.queryStringItems = []
  · rw [if_neg (by rw [hitems]; decide), Except.ok.injEq, eq_comm]
    simp [hitems]
  · rw [if_pos (List.length_pos_iff.mpr hitems), bind_eq_ok]
    simp only [hitems, false_and, ne_eq, not_false_eq_true, true_and, false_or]
    apply exists_congr
    intro quer
    apply and_congr_right
    intro _
    show Except.ok _ = Except.ok values ↔ _
    rw [Except.ok.injEq, eq_comm]

/-- The values of the headers, if they are all there. -/
theorem headerParams_eq_ok {values : List Bytes} : headerParams h request isOptions = .ok values ↔
    (isOptions = true ∧ values = []) ∨
      (isOptions = false ∧ (∀ item ∈ h.headerItems, request.containsHeader item = true) ∧
        values = h.headerItems.map request.getHeader) := by
  unfold headerParams
  cases isOptions with
  | true =>
    rw [if_neg (by simp), Except.ok.injEq, eq_comm]
    simp
  | false =>
    by_cases hitems : h.headerItems = []
    · rw [if_neg (by simp [hitems]), Except.ok.injEq, eq_comm]
      simp [hitems]
    · rw [if_pos ⟨rfl, List.length_pos_iff.mpr hitems⟩, headerValues_eq_ok]
      simp

/-- The parameters of a request that is taken: the path variables, then the query string items,
then the headers. -/
theorem extractParams_eq_ok {params : List Bytes} :
    extractParams fullMatch h request isOptions = .ok (some params) ↔
      ∃ pathValues queryValues headerValues,
        pathParams fullMatch h request.path = some pathValues ∧
        params = pathValues ++ queryValues ++ headerValues ∧
        ((h.queryStringItems = [] ∧ queryValues = []) ∨
          (h.queryStringItems ≠ [] ∧ ∃ quer, percentDecode request.query = .ok quer ∧
            queryValues = h.queryStringItems.map (queryValue quer))) ∧
        ((isOptions = true ∧ headerValues = []) ∨
          (isOptions = false ∧ (∀ item ∈ h.headerItems, request.containsHeader item = true) ∧
            headerValues = h.headerItems.map request.getHeader)) := by
  rw [extractParams]
  cases hpath : pathParams fullMatch h request.path with
  | none => simp
  | some pathValues =>
    simp only [bind_eq_ok, queryParams_eq_ok, headerParams_eq_ok]
    constructor
    · intro hok
      obtain ⟨queryValues, hquery, headerValues, hheader, hparams⟩ := hok
      have hparams : pathValues ++ queryValues ++ headerValues = params :=
        Option.some.inj (Except.ok.inj hparams)
      exact ⟨pathValues, queryValues, headerValues, rfl, hparams.symm, hquery, hheader⟩
    · intro hall
      obtain ⟨pathValues', queryValues, headerValues, hsame, hparams, hquery, hheader⟩ := hall
      obtain rfl := Option.some.inj hsame
      refine ⟨queryValues, hquery, headerValues, hheader, ?_⟩
      rw [hparams]
      rfl

/-- A request that is taken can be answered if its items are found. -/
theorem exists_params_iff (hacc : Accepts fullMatch h request.path) :
    (∃ params, extractParams fullMatch h request isOptions = .ok (some params)) ↔
      ItemsFound h request isOptions := by
  obtain ⟨pathValues, hpath⟩ := Option.isSome_iff_exists.mp hacc
  constructor
  · intro hex
    obtain ⟨params, hok⟩ := hex
    obtain ⟨_, _, _, _, _, hquery, hheader⟩ := extractParams_eq_ok.mp hok
    refine ⟨fun hne => ?_, fun hopt => ?_⟩
    · obtain ⟨hnil, -⟩ | ⟨-, quer, hquer, -⟩ := hquery
      · exact absurd hnil hne
      · exact ⟨quer, hquer⟩
    · obtain ⟨htrue, -⟩ | ⟨-, hall, -⟩ := hheader
      · exact absurd (htrue.symm.trans hopt) (by decide)
      · exact hall
  · intro hfound
    obtain ⟨hquery, hheader⟩ := hfound
    have hquery' : ∃ values, (h.queryStringItems = [] ∧ values = []) ∨
        (h.queryStringItems ≠ [] ∧ ∃ quer, percentDecode request.query = .ok quer ∧
          values = h.queryStringItems.map (queryValue quer)) := by
      by_cases hnil : h.queryStringItems = []
      · exact ⟨[], .inl ⟨hnil, rfl⟩⟩
      · obtain ⟨quer, hquer⟩ := hquery hnil
        exact ⟨_, .inr ⟨hnil, quer, hquer, rfl⟩⟩
    have hheader' : ∃ values, (isOptions = true ∧ values = []) ∨
        (isOptions = false ∧ (∀ item ∈ h.headerItems, request.containsHeader item = true) ∧
          values = h.headerItems.map request.getHeader) := by
      cases hopt : isOptions with
      | true => exact ⟨[], .inl ⟨rfl, rfl⟩⟩
      | false => exact ⟨_, .inr ⟨rfl, hheader hopt, rfl⟩⟩
    obtain ⟨queryValues, hquery'⟩ := hquery'
    obtain ⟨headerValues, hheader'⟩ := hheader'
    exact ⟨_, extractParams_eq_ok.mpr
      ⟨pathValues, queryValues, headerValues, hpath, rfl, hquery', hheader'⟩⟩

/-- A mapping that takes a request does not pass it on. -/
theorem extractParams_ne_none (hacc : Accepts fullMatch h request.path) :
    extractParams fullMatch h request isOptions ≠ .ok none := by
  obtain ⟨pathValues, hpath⟩ := Option.isSome_iff_exists.mp hacc
  intro hnone
  rw [extractParams, hpath] at hnone
  obtain ⟨queryValues, -, hnone⟩ := bind_eq_ok.mp hnone
  obtain ⟨headerValues, -, hnone⟩ := bind_eq_ok.mp hnone
  exact absurd (Except.ok.inj hnone) (by simp)

/-! ## Responders -/

/-- A responder passes on exactly the requests that it does not take. -/
theorem respond_eq_none_iff :
    m.respond fullMatch request isOptions = .ok none ↔ ¬Accepts fullMatch m.h request.path := by
  constructor
  · intro hnone hacc
    rw [MapResponder.respond] at hnone
    obtain ⟨params, hparams, hnone⟩ := bind_eq_ok.mp hnone
    cases params with
    | none => exact extractParams_ne_none hacc hparams
    | some params =>
      simp only at hnone
      split at hnone <;> exact absurd (Except.ok.inj hnone) (by simp)
  · intro hno
    rw [MapResponder.respond, extractParams_of_not_accepts hno]
    rfl

/-- What a responder answers: a preflight request itself, another one through its function. -/
theorem respond_eq_some_iff {reply : Reply F} :
    m.respond fullMatch request isOptions = .ok (some reply) ↔
      ∃ params, extractParams fullMatch m.h request isOptions = .ok (some params) ∧
        reply = if isOptions then .options (respondOptions request m.allowedHeaders)
          else .call m params := by
  rw [MapResponder.respond, bind_eq_ok]
  constructor
  · intro hex
    obtain ⟨params, hparams, hreply⟩ := hex
    cases params with
    | none => exact absurd (Except.ok.inj hreply) (by simp)
    | some params =>
      refine ⟨params, hparams, ?_⟩
      cases isOptions <;> exact (Option.some.inj (Except.ok.inj hreply)).symm
  · intro hex
    obtain ⟨params, hparams, hreply⟩ := hex
    refine ⟨some params, hparams, ?_⟩
    rw [hreply]
    cases isOptions <;> rfl

/-- Of several responders, the first one that takes the request decides. -/
theorem respondFirst_eq : respondFirst fullMatch request isOptions ms =
    match ms.find? fun m => Accepts fullMatch m.h request.path with
    | none => .ok none
    | some m => m.respond fullMatch request isOptions := by
  induction ms with
  | nil => rfl
  | cons m ms ih =>
    rw [respondFirst]
    by_cases hacc : Accepts fullMatch m.h request.path
    · rw [List.find?_cons_of_pos (by simpa using hacc)]
      show _ = m.respond fullMatch request isOptions
      cases hrespond : m.respond fullMatch request isOptions with
      | error e => rfl
      | ok reply =>
        cases reply with
        | none => exact absurd hacc (respond_eq_none_iff.mp hrespond)
        | some reply => rfl
    · rw [List.find?_cons_of_neg (by simpa using hacc), respond_eq_none_iff.mpr hacc, ← ih]
      rfl

/-! ## The bucket -/

/-- The mapping of the table that takes the path: the first one in its bucket that does. -/
def RequestDispatcher.Settled (d : RequestDispatcher F)
    (fullMatch : Bytes → Bytes → Option (List Bytes)) (method path : Bytes) (m : MapResponder F) :
    Prop :=
  ∃ buckets e, d.map.get method = some buckets ∧ OrderedMap.floor path buckets = some e ∧
    e.2.find? (fun m => Accepts fullMatch m.h path) = some m

variable {d : RequestDispatcher F} {method : Bytes}

theorem RequestDispatcher.Settled.accepts {path : Bytes}
    (hm : d.Settled fullMatch method path m) : Accepts fullMatch m.h path := by
  obtain ⟨_, _, _, _, hfind⟩ := hm
  simpa using List.find?_some hfind

/-- What comes behind the checks of the method: the mapping that takes the path answers. -/
theorem dispatchMethod_eq_ok_iff {reply : Reply F} :
    d.dispatchMethod fullMatch method request isOptions = .ok reply ↔
      ∃ m, d.Settled fullMatch method request.path m ∧
        m.respond fullMatch request isOptions = .ok (some reply) := by
  rw [RequestDispatcher.dispatchMethod]
  constructor
  · intro hok
    split at hok
    · exact absurd hok (by simp)
    · next buckets hget =>
      split at hok
      · exact absurd hok (by simp)
      · next e hfloor =>
        obtain ⟨answer, hanswer, hok⟩ := bind_eq_ok.mp hok
        rw [respondFirst_eq] at hanswer
        cases hfind : e.2.find? fun m => Accepts fullMatch m.h request.path with
        | none =>
          rw [hfind] at hanswer
          rw [← Except.ok.inj hanswer] at hok
          exact absurd hok (by simp)
        | some m =>
          rw [hfind] at hanswer
          cases answer with
          | none => exact absurd hok (by simp)
          | some reply' =>
            obtain rfl : reply' = reply := Except.ok.inj hok
            exact ⟨m, ⟨buckets, e, hget, hfloor, hfind⟩, hanswer⟩
  · intro hex
    obtain ⟨m, ⟨buckets, e, hget, hfloor, hfind⟩, hrespond⟩ := hex
    have hanswer : respondFirst fullMatch request isOptions e.2 = .ok (some reply) := by
      rw [respondFirst_eq, hfind]
      exact hrespond
    simp only [hget, hfloor, hanswer]
    rfl

/-- A function is called if the items of the mapping that takes the path can be had. -/
theorem dispatchMethod_eq_call_iff :
    (∃ params, d.dispatchMethod fullMatch method request false = .ok (.call m params)) ↔
      d.Settled fullMatch method request.path m ∧ ItemsFound m.h request false := by
  constructor
  · intro hcall
    obtain ⟨params, hcall⟩ := hcall
    obtain ⟨m', hsettled, hrespond⟩ := dispatchMethod_eq_ok_iff.mp hcall
    obtain ⟨params', hparams, hreply⟩ := respond_eq_some_iff.mp hrespond
    obtain ⟨rfl, -⟩ := Reply.call.inj hreply
    exact ⟨hsettled, (exists_params_iff hsettled.accepts).mp ⟨_, hparams⟩⟩
  · intro htaken
    obtain ⟨hsettled, hfound⟩ := htaken
    obtain ⟨params, hparams⟩ := (exists_params_iff hsettled.accepts).mpr hfound
    exact ⟨params, dispatchMethod_eq_ok_iff.mpr
      ⟨m, hsettled, respond_eq_some_iff.mpr ⟨params, hparams, rfl⟩⟩⟩

/-- A preflight request is answered if the items of the mapping that takes the path can be had,
the headers apart. -/
theorem dispatchMethod_eq_options_iff :
    (∃ response, d.dispatchMethod fullMatch method request true = .ok (.options response)) ↔
      ∃ m, d.Settled fullMatch method request.path m ∧ ItemsFound m.h request true := by
  constructor
  · intro hanswered
    obtain ⟨response, hanswered⟩ := hanswered
    obtain ⟨m, hsettled, hrespond⟩ := dispatchMethod_eq_ok_iff.mp hanswered
    obtain ⟨params, hparams, -⟩ := respond_eq_some_iff.mp hrespond
    exact ⟨m, hsettled, (exists_params_iff hsettled.accepts).mp ⟨_, hparams⟩⟩
  · intro htaken
    obtain ⟨m, hsettled, hfound⟩ := htaken
    obtain ⟨params, hparams⟩ := (exists_params_iff hsettled.accepts).mpr hfound
    exact ⟨_, dispatchMethod_eq_ok_iff.mpr
      ⟨m, hsettled, respond_eq_some_iff.mpr ⟨params, hparams, rfl⟩⟩⟩

/-- No function is called for a preflight request. -/
theorem dispatch_ne_call_of_isOptions (hopt : d.isOptions request = true) (m : MapResponder F)
    (params : List Bytes) : d.dispatch fullMatch request ≠ .ok (.call m params) := by
  intro hcall
  rw [RequestDispatcher.dispatch, if_pos hopt] at hcall
  split at hcall
  · exact absurd (Except.ok.inj hcall) (by simp)
  · obtain ⟨method, -, hcall⟩ := bind_eq_ok.mp hcall
    obtain ⟨m', -, hrespond⟩ := dispatchMethod_eq_ok_iff.mp hcall
    obtain ⟨params', -, hreply⟩ := respond_eq_some_iff.mp hrespond
    exact absurd hreply (by simp)

/-- Another request goes to the table at once. -/
theorem dispatch_of_not_isOptions (hopt : ¬d.isOptions request = true) :
    d.dispatch fullMatch request = d.dispatchMethod fullMatch request.method request false := by
  rw [RequestDispatcher.dispatch, if_neg hopt]

end Anon.Dispatcher
