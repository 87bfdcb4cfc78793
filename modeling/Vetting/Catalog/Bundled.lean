import Vetting.Catalog

/-!
# The bundled messages

The messages of validation in English, Portuguese and Spanish.
-/

namespace Vetting.Catalog

def templatesOf (entries : List (Text × Text)) : Value :=
  .object (Fields.ofNamed (entries.map fun entry => (entry.1, .text entry.2)))

def english : List (Text × Text) := [
  ("errors.criteriaNotConfigured",
    "Criteria \x7b\x7bcriterion\x7d\x7d is not configured"),
  ("errors.computeValueFailed",
    "Failed to compute value for criteria \x7b\x7bcriterion\x7d\x7d"),
  ("errors.expression",
    "Error processing expression: \x7b\x7bmessage\x7d\x7d"),
  ("errors.criteriaExists",
    "Criteria \x7b\x7bcriterion\x7d\x7d must exist"),
  ("errors.criteriaIn",
    "Criteria \x7b\x7bcriterion\x7d\x7d must be one of \x7b\x7bvalues\x7d\x7d"),
  ("errors.criteriaIncludes",
    "Criteria \x7b\x7bcriterion\x7d\x7d must include all values \x7b\x7bvalues\x7d\x7d"),
  ("errors.criteriaArray",
    "Criteria \x7b\x7bcriterion\x7d\x7d must be an array"),
  ("errors.numberType",
    "Criteria \x7b\x7bcriterion\x7d\x7d must be a number"),
  ("errors.stringType",
    "Criteria \x7b\x7bcriterion\x7d\x7d must be a string"),
  ("errors.booleanType",
    "Criteria \x7b\x7bcriterion\x7d\x7d must be a boolean"),
  ("errors.betweenRange",
    "Criteria \x7b\x7bcriterion\x7d\x7d must be between \x7b\x7bmin\x7d\x7d and \x7b\x7bmax\x7d\x7d"),
  ("errors.greaterThanEqual",
    "Criteria \x7b\x7bcriterion\x7d\x7d must be greater than or equal to \x7b\x7bvalue\x7d\x7d"),
  ("errors.lessThanEqual",
    "Criteria \x7b\x7bcriterion\x7d\x7d must be less than or equal to \x7b\x7bvalue\x7d\x7d"),
  ("errors.greaterThan",
    "Criteria \x7b\x7bcriterion\x7d\x7d must be greater than \x7b\x7bvalue\x7d\x7d"),
  ("errors.lessThan",
    "Criteria \x7b\x7bcriterion\x7d\x7d must be less than \x7b\x7bvalue\x7d\x7d"),
  ("errors.equalTo",
    "Criteria \x7b\x7bcriterion\x7d\x7d must be equal to \x7b\x7bvalue\x7d\x7d"),
  ("errors.customValidationFailed",
    "Custom validation failed for criteria \x7b\x7bcriterion\x7d\x7d")]

def portuguese : List (Text × Text) := [
  ("errors.criteriaNotConfigured",
    "Critério \x7b\x7bcriterion\x7d\x7d não configurado"),
  ("errors.computeValueFailed",
    "Erro ao computar valor para o critério \x7b\x7bcriterion\x7d\x7d"),
  ("errors.expression",
    "Erro ao processar expressão: \x7b\x7bmessage\x7d\x7d"),
  ("errors.criteriaExists",
    "Critério \x7b\x7bcriterion\x7d\x7d deve existir"),
  ("errors.criteriaIn",
    "Critério \x7b\x7bcriterion\x7d\x7d deve ser um dos valores: \x7b\x7bvalues\x7d\x7d"),
  ("errors.criteriaIncludes",
    "Critério \x7b\x7bcriterion\x7d\x7d deve incluir todos os valores \x7b\x7bvalues\x7d\x7d"),
  ("errors.criteriaArray",
    "Critério \x7b\x7bcriterion\x7d\x7d deve ser um array"),
  ("errors.numberType",
    "Critério \x7b\x7bcriterion\x7d\x7d deve ser um número"),
  ("errors.stringType",
    "Critério \x7b\x7bcriterion\x7d\x7d deve ser uma string"),
  ("errors.booleanType",
    "Critério \x7b\x7bcriterion\x7d\x7d deve ser um booleano"),
  ("errors.betweenRange",
    "Critério \x7b\x7bcriterion\x7d\x7d deve estar entre \x7b\x7bmin\x7d\x7d e \x7b\x7bmax\x7d\x7d"),
  ("errors.greaterThanEqual",
    "Critério \x7b\x7bcriterion\x7d\x7d deve ser maior ou igual a \x7b\x7bvalue\x7d\x7d"),
  ("errors.lessThanEqual",
    "Critério \x7b\x7bcriterion\x7d\x7d deve ser menor ou igual a \x7b\x7bvalue\x7d\x7d"),
  ("errors.greaterThan",
    "Critério \x7b\x7bcriterion\x7d\x7d deve ser maior que \x7b\x7bvalue\x7d\x7d"),
  ("errors.lessThan",
    "Critério \x7b\x7bcriterion\x7d\x7d deve ser menor que \x7b\x7bvalue\x7d\x7d"),
  ("errors.equalTo",
    "Critério \x7b\x7bcriterion\x7d\x7d deve ser igual a \x7b\x7bvalue\x7d\x7d"),
  ("errors.customValidationFailed",
    "Validação personalizada falhou para o critério \x7b\x7bcriterion\x7d\x7d")]

def spanish : List (Text × Text) := [
  ("errors.criteriaNotConfigured",
    "Criterio \x7b\x7bcriterion\x7d\x7d no configurado"),
  ("errors.computeValueFailed",
    "Error al calcular el valor para el criterio \x7b\x7bcriterion\x7d\x7d"),
  ("errors.expression",
    "Error al procesar la expresión: \x7b\x7bmessage\x7d\x7d"),
  ("errors.criteriaExists",
    "El criterio \x7b\x7bcriterion\x7d\x7d debe existir"),
  ("errors.criteriaIn",
    "El criterio \x7b\x7bcriterion\x7d\x7d debe ser uno de los valores: \x7b\x7bvalues\x7d\x7d"),
  ("errors.criteriaIncludes",
    "El criterio \x7b\x7bcriterion\x7d\x7d debe incluir todos los valores \x7b\x7bvalues\x7d\x7d"),
  ("errors.criteriaArray",
    "El criterio \x7b\x7bcriterion\x7d\x7d debe ser un array"),
  ("errors.numberType",
    "El criterio \x7b\x7bcriterion\x7d\x7d debe ser un número"),
  ("errors.stringType",
    "El criterio \x7b\x7bcriterion\x7d\x7d debe ser una cadena de texto"),
  ("errors.booleanType",
    "El criterio \x7b\x7bcriterion\x7d\x7d debe ser un booleano"),
  ("errors.betweenRange",
    "El criterio \x7b\x7bcriterion\x7d\x7d debe estar entre \x7b\x7bmin\x7d\x7d y \x7b\x7bmax\x7d\x7d"),
  ("errors.greaterThanEqual",
    "El criterio \x7b\x7bcriterion\x7d\x7d debe ser mayor o igual a \x7b\x7bvalue\x7d\x7d"),
  ("errors.lessThanEqual",
    "El criterio \x7b\x7bcriterion\x7d\x7d debe ser menor o igual a \x7b\x7bvalue\x7d\x7d"),
  ("errors.greaterThan",
    "El criterio \x7b\x7bcriterion\x7d\x7d debe ser mayor que \x7b\x7bvalue\x7d\x7d"),
  ("errors.lessThan",
    "El criterio \x7b\x7bcriterion\x7d\x7d debe ser menor que \x7b\x7bvalue\x7d\x7d"),
  ("errors.equalTo",
    "El criterio \x7b\x7bcriterion\x7d\x7d debe ser igual a \x7b\x7bvalue\x7d\x7d"),
  ("errors.customValidationFailed",
    "La validación personalizada falló para el criterio \x7b\x7bcriterion\x7d\x7d")]

/-- The bundled catalog, with English as its default language. -/
def bundled : Catalog where
  messages := Fields.ofNamed [
    ("en", templatesOf english), ("pt", templatesOf portuguese), ("es", templatesOf spanish)]
  defaultLanguage := .text "en"

end Vetting.Catalog
