import Anon.Dispatcher.PlainExpressions

/-!
# Preflight requests and dispatching

Before a browser sends a request to another site it asks for permission with an OPTIONS request
that names the method. Such a request should be answered exactly when the request that it is
about would be allowed and would reach a mapping.

* `IsPreflightFor`: the two requests.
* `preflight_agrees_iff`: exactly when the two answers agree.
-/

namespace Anon.Dispatcher

variable {F : Type}

/-- The bit of a method in the mask. -/
def corsBit (method : Bytes) : Option (BitVec 32) :=
  if method = ascii "GET" then some kEnableCorsGet
  else if method = ascii "HEAD" then some kEnableCorsHead
  else if method = ascii "POST" then some kEnableCorsPost
  else if method = ascii "PUT" then some kEnableCorsPut
  else if method = ascii "DELETE" then some kEnableCorsDelete
  else none

/-- `options` asks for permission to send `real`. -/
structure IsPreflightFor (options real : HttpRequest) : Prop where
  method : options.method = ascii "OPTIONS"
  asks : options.containsHeader (ascii "access-control-request-method") = true
  requestMethod : options.getHeader (ascii "access-control-request-method") = real.method
  path : options.path = real.path
  query : options.query = real.query

namespace RequestDispatcher

/-- The request has every header that a mapping for its method asks for. -/
def Carries (d : RequestDispatcher F) (real : HttpRequest) : Prop :=
  ∀ buckets, d.map.get real.method = some buckets → ∀ e ∈ buckets, ∀ m ∈ e.2,
    ∀ item ∈ m.h.headerItems, real.containsHeader item = true

/-- The options responder answers. -/
def AnswersOptions (d : RequestDispatcher F) (fullMatch : Bytes → Bytes → Option (List Bytes))
    (options : HttpRequest) : Prop :=
  ∃ response, d.dispatch fullMatch options = .ok (.options response)

/-- The request reaches the responder of a mapping. -/
def Reaches (d : RequestDispatcher F) (fullMatch : Bytes → Bytes → Option (List Bytes))
    (real : HttpRequest) : Prop :=
  ∃ m params, d.dispatch fullMatch real = .ok (.call m params)

/-- Some mapping for the method of the request takes its path, and its items can be had. -/
def Serves (d : RequestDispatcher F) (fullMatch : Bytes → Bytes → Option (List Bytes))
    (real : HttpRequest) : Prop :=
  ∃ m, d.Settled fullMatch real.method real.path m ∧ ItemsFound m.h real false

/-- The preflight request is answered exactly when the bit of the method is set and the real
request reaches a mapping. -/
def PreflightAgrees (d : RequestDispatcher F) (fullMatch : Bytes → Bytes → Option (List Bytes))
    (options real : HttpRequest) (bit : BitVec 32) : Prop :=
  d.AnswersOptions fullMatch options ↔ d.enables bit = true ∧ d.Reaches fullMatch real

variable {d : RequestDispatcher F} {fullMatch : Bytes → Bytes → Option (List Bytes)}
  {options real : HttpRequest} {bit : BitVec 32}

/-- A method with a bit is not the one of preflight requests. -/
theorem not_isOptions_of_corsBit (hbit : corsBit real.method = some bit) :
    ¬d.isOptions real = true := by
  intro hopt
  have hmethod : ascii "OPTIONS" = real.method := by
    rw [isOptions, Bool.and_eq_true] at hopt
    exact of_decide_eq_true hopt.2
  have hnone : corsBit (ascii "OPTIONS") = none := by decide
  rw [← hmethod, hnone] at hbit
  exact absurd hbit (by simp)

theorem reaches_iff_serves (hbit : corsBit real.method = some bit) :
    d.Reaches fullMatch real ↔ d.Serves fullMatch real := by
  unfold Reaches Serves
  apply exists_congr
  intro m
  rw [dispatch_of_not_isOptions (not_isOptions_of_corsBit hbit)]
  exact dispatchMethod_eq_call_iff

/-- A preflight request for a real request finds the items of a mapping if the real one does. -/
theorem itemsFound_preflight_iff (hpre : IsPreflightFor options real) (hcarries : d.Carries real)
    {m : MapResponder F} (hm : d.Settled fullMatch real.method real.path m) :
    ItemsFound m.h options true ↔ ItemsFound m.h real false := by
  obtain ⟨buckets, e, hget, hfloor, hfind⟩ := hm
  have hheaders := hcarries buckets hget e
    ((List.takeWhile_prefix _).subset (List.mem_of_getLast? hfloor)) m
    (List.mem_of_find?_eq_some hfind)
  unfold ItemsFound
  rw [hpre.query]
  constructor
  · intro hfound
    exact ⟨hfound.1, fun _ => hheaders⟩
  · intro hfound
    exact ⟨hfound.1, fun htrue => absurd htrue (by decide)⟩

/-- A preflight request is answered when the method passes the check and the real request is
served. -/
theorem answersOptions_iff (hcors : d.corsEnabled ≠ 0) (hpre : IsPreflightFor options real)
    (hstar : real.path ≠ ascii "*") (hempty : real.path ≠ []) (hcarries : d.Carries real) :
    d.AnswersOptions fullMatch options ↔
      d.checkMethod real.method = true ∧ d.Serves fullMatch real := by
  have hopt : d.isOptions options = true := by
    rw [isOptions, hpre.method]
    simpa using hcors
  have hpath : ¬(options.path = ascii "*" ∨ options.path = []) := by
    rw [hpre.path]
    exact not_or.mpr ⟨hstar, hempty⟩
  have hserves : (∃ response,
      d.dispatchMethod fullMatch real.method options true = .ok (.options response)) ↔
        d.Serves fullMatch real := by
    rw [dispatchMethod_eq_options_iff, hpre.path]
    apply exists_congr
    intro m
    apply and_congr_right
    intro hm
    exact itemsFound_preflight_iff hpre hcarries hm
  rw [← hserves, AnswersOptions, dispatch, if_pos hopt, if_neg hpath, preflightMethod,
    if_pos hpre.asks, hpre.requestMethod]
  by_cases hcheck : d.checkMethod real.method = true
  · simp only [hcheck, true_and]
    rfl
  · simp only [hcheck]
    constructor
    · intro hanswered
      obtain ⟨response, hresponse⟩ := hanswered
      obtain ⟨method, hmethod, -⟩ := bind_eq_ok.mp hresponse
      exact absurd hmethod (by simp)
    · intro hserved
      exact absurd hserved.1 Bool.false_ne_true

/-- The check looks at the bit of the method, but for DELETE at the one of PUT. -/
theorem checkMethod_eq (hbit : corsBit real.method = some bit) : d.checkMethod real.method =
    if real.method = ascii "DELETE" then d.enables kEnableCorsPut else d.enables bit := by
  unfold corsBit at hbit
  unfold checkMethod
  by_cases hget : real.method = ascii "GET"
  · rw [if_pos hget] at hbit
    rw [if_pos hget, if_neg (by rw [hget]; decide), Option.some.inj hbit]
  rw [if_neg hget] at hbit
  by_cases hhead : real.method = ascii "HEAD"
  · rw [if_pos hhead] at hbit
    rw [if_neg hget, if_pos hhead, if_neg (by rw [hhead]; decide), Option.some.inj hbit]
  rw [if_neg hhead] at hbit
  by_cases hpost : real.method = ascii "POST"
  · rw [if_pos hpost] at hbit
    rw [if_neg hget, if_neg hhead, if_pos hpost, if_neg (by rw [hpost]; decide),
      Option.some.inj hbit]
  rw [if_neg hpost] at hbit
  by_cases hput : real.method = ascii "PUT"
  · rw [if_pos hput] at hbit
    rw [if_neg hget, if_neg hhead, if_neg hpost, if_pos hput, if_neg (by rw [hput]; decide),
      Option.some.inj hbit]
  rw [if_neg hput] at hbit
  by_cases hdelete : real.method = ascii "DELETE"
  · rw [if_neg hget, if_neg hhead, if_neg hpost, if_neg hput, if_pos hdelete, if_pos hdelete]
  · rw [if_neg hdelete] at hbit
    exact absurd hbit (by simp)

/-- The answers agree unless a DELETE request would be served and the mask has only one of the
bits of PUT and DELETE. -/
theorem preflight_agrees_iff (hcors : d.corsEnabled ≠ 0) (hpre : IsPreflightFor options real)
    (hbit : corsBit real.method = some bit) (hstar : real.path ≠ ascii "*")
    (hempty : real.path ≠ []) (hcarries : d.Carries real) :
    d.PreflightAgrees fullMatch options real bit ↔
      (real.method = ascii "DELETE" → d.Serves fullMatch real →
        (d.enables kEnableCorsPut = true ↔ d.enables kEnableCorsDelete = true)) := by
  rw [PreflightAgrees, answersOptions_iff hcors hpre hstar hempty hcarries, checkMethod_eq hbit,
    reaches_iff_serves hbit]
  by_cases hdelete : real.method = ascii "DELETE"
  · have hbit' : bit = kEnableCorsDelete := by
      rw [hdelete] at hbit
      exact (Option.some.inj hbit).symm
    rw [if_pos hdelete, hbit']
    constructor
    · intro hagrees _ hserves
      constructor
      · intro hput
        exact (hagrees.mp ⟨hput, hserves⟩).1
      · intro hdel
        exact (hagrees.mpr ⟨hdel, hserves⟩).1
    · intro hsame
      constructor
      · intro hanswered
        exact ⟨(hsame hdelete hanswered.2).mp hanswered.1, hanswered.2⟩
      · intro hreached
        exact ⟨(hsame hdelete hreached.2).mpr hreached.1, hreached.2⟩
  · rw [if_neg hdelete]
    constructor
    · intro _ hdelete'
      exact absurd hdelete' hdelete
    · intro _
      exact Iff.rfl

/-- The preflight request for `DELETE /a`, and the request itself. -/
def deletePreflight : HttpRequest :=
  ⟨ascii "OPTIONS", ascii "/a", [], [(ascii "access-control-request-method", ascii "DELETE")]⟩

def deleteRequest : HttpRequest := ⟨ascii "DELETE", ascii "/a", [], []⟩

/-- A mapping for `DELETE /a`, with a mask that allows DELETE and not PUT. -/
def deleteMappings : Except Bytes (RequestDispatcher ℕ) :=
  (RequestDispatcher.new [] kEnableCorsDelete).register
    [⟨ascii "DELETE", ascii "/a", 0, false, []⟩]

theorem isPreflightFor_delete : IsPreflightFor deletePreflight deleteRequest where
  method := rfl
  asks := by decide
  requestMethod := by decide
  path := rfl
  query := rfl

/-- The one mapping asks for no header. -/
theorem exists_deleteMappings : ∃ d, deleteMappings = .ok d ∧ d.Carries deleteRequest ∧
    d.corsEnabled = kEnableCorsDelete := by
  have hrun : (match deleteMappings with
      | .ok d => (match d.map.get deleteRequest.method with
        | some buckets => buckets.all fun e => e.2.all fun m => m.h.headerItems.isEmpty
        | none => true) && decide (d.corsEnabled = kEnableCorsDelete)
      | .error _ => false) = true := by
    decide +kernel
  cases hok : deleteMappings with
  | error e =>
    rw [hok] at hrun
    exact absurd hrun Bool.false_ne_true
  | ok d =>
    rw [hok] at hrun
    obtain ⟨hitems, hcors⟩ := Bool.and_eq_true_iff.mp hrun
    refine ⟨d, rfl, ?_, of_decide_eq_true hcors⟩
    intro buckets hget e he m hm item hitem
    rw [hget] at hitems
    have hnil := List.all_eq_true.mp (List.all_eq_true.mp hitems e he) m hm
    rw [List.isEmpty_iff.mp hnil] at hitem
    exact absurd hitem List.not_mem_nil

/-- The preflight request is refused although the request would be served. -/
theorem preflight_refuses_delete : ∃ d, deleteMappings = .ok d ∧
    IsPreflightFor deletePreflight deleteRequest ∧ d.Carries deleteRequest ∧
    ¬d.PreflightAgrees plainFullMatch deletePreflight deleteRequest kEnableCorsDelete := by
  obtain ⟨d, hok, hcarries, hcors⟩ := exists_deleteMappings
  refine ⟨d, hok, isPreflightFor_delete, hcarries, ?_⟩
  have hrun : (match deleteMappings with
      | .ok d => decide (d.dispatch plainFullMatch deletePreflight =
            .error (methodNotAllowed (ascii "DELETE"))) &&
          (match d.dispatch plainFullMatch deleteRequest with
            | .ok (.call _ _) => true
            | _ => false)
      | .error _ => false) = true := by
    decide +kernel
  rw [hok] at hrun
  obtain ⟨hrefused, hserved⟩ := Bool.and_eq_true_iff.mp hrun
  intro hagrees
  have henables : d.enables kEnableCorsDelete = true := by
    rw [enables, hcors]
    decide
  have hreaches : d.Reaches plainFullMatch deleteRequest := by
    match hdispatch : d.dispatch plainFullMatch deleteRequest with
    | .ok (.call m params) => exact ⟨m, params, hdispatch⟩
    | .ok (.options _) | .ok (.allow _) | .error _ =>
      rw [hdispatch] at hserved
      exact absurd hserved Bool.false_ne_true
  obtain ⟨response, hresponse⟩ := hagrees.mpr ⟨henables, hreaches⟩
  rw [of_decide_eq_true hrefused] at hresponse
  exact absurd hresponse (by simp)

/-- The condition for that mapping. -/
theorem preflight_agrees_iff_delete : ∃ d, deleteMappings = .ok d ∧
    (d.PreflightAgrees plainFullMatch deletePreflight deleteRequest kEnableCorsDelete ↔
      (deleteRequest.method = ascii "DELETE" → d.Serves plainFullMatch deleteRequest →
        (d.enables kEnableCorsPut = true ↔ d.enables kEnableCorsDelete = true))) := by
  obtain ⟨d, hok, hcarries, hcors⟩ := exists_deleteMappings
  have hne : d.corsEnabled ≠ 0 := by
    rw [hcors]
    decide
  exact ⟨d, hok, preflight_agrees_iff hne isPreflightFor_delete (by decide) (by decide) (by decide)
    hcarries⟩

end RequestDispatcher

end Anon.Dispatcher
