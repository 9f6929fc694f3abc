import ResourceApi.Manifest.Basic

/-!
The resources for which clients come with the library: items and their unit sets, accounts, sales
orders and currency rates.
-/

namespace ResourceApi.Manifest

def items : Resource where
  name := "Item"
  path := "/items"
  model := none
  verbs := Verb.all
  actions :=
    [⟨"unit_sets", .get, some "unitSets", ["id"], false, none⟩,
      ⟨"copy", .post, none, ["id"], true, none⟩]

def accounts : Resource where
  name := "Arp"
  path := "/arps"
  model := none
  verbs := [.list, .get, .create, .update, .patch]
  actions := [⟨"balance", .get, none, ["id", "currency"], false, none⟩]

def salesOrders : Resource where
  name := "SalesOrder"
  path := "/salesOrders"
  model := none
  verbs := Verb.all
  actions :=
    [⟨"approve", .post, none, ["id"], false, none⟩,
      ⟨"dispatch_notes", .post, some "dispatchNotes", ["id"], true, none⟩]

def currencyRates : Resource where
  name := "CurrencyRate"
  path := "/currencyRates"
  model := none
  verbs := [.list, .get]
  actions := []

def standard : Manifest := ⟨[items, accounts, salesOrders, currencyRates]⟩

end ResourceApi.Manifest
