import Verdicts.Proofs.Judgement.Trails

/-!
# Verdicts only intern

Verdicts look types up by name and ask about assignability and conversions, so
they store arrays and constructed types at most: along their trails tables only
grow.
-/

namespace Verdicts

variable {α : Type}

theorem Interns.onTable {m : StateM Table α} (hm : Interns m) :
    Interns (Program.onTable m) :=
  fun p => hm p.table

theorem Interns.onProgram {m : StateM Program α} (hm : Interns m) :
    Interns (liftM m : StateM Inquiry α) :=
  fun q => hm q.program

namespace Inquiry

theorem interns_keepFrameworkType (f : Family) (w : FrameworkType)
    (h : Option Handle) : Interns (keepFrameworkType f w h) :=
  fun q => .refl q.program.table

theorem interns_keepSystemType (s : SystemType) (h : Option Handle) :
    Interns (keepSystemType s h) :=
  fun q => .refl q.program.table

theorem interns_familyType (f : Family) (w : FrameworkType) :
    Interns (familyType f w) :=
  (asks_slot (.framework f w)).interns

theorem interns_frameworkType (w : FrameworkType) :
    Interns (frameworkType w) :=
  (asks_frameworkType w).interns

theorem interns_systemType (s : SystemType) : Interns (systemType s) :=
  (asks_slot (.system s)).interns

theorem interns_takesStringsOnly (h : Handle) :
    Interns (takesStringsOnly h) :=
  (asks_takesStringsOnly h).interns

theorem interns_registeredTypes : Interns registeredTypes :=
  asks_registeredTypes.interns

theorem interns_isTraitDictionary (h : Handle) :
    Interns (isTraitDictionary h) :=
  (asks_isTraitDictionary h).interns

theorem interns_isDurable (h : Handle) : Interns (isDurable h) :=
  (asks_anySystemType h _).interns

theorem interns_isAssignableToAny (h : Handle) (targets : List Handle) :
    Interns (isAssignableToAny h targets) :=
  (asks_isAssignableToAny h targets).interns

theorem interns_classify (c : Classifier) (h : Handle) :
    Interns (classify c h) :=
  (asks_classify c h).interns

end Inquiry

end Verdicts
