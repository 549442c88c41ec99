import Verdicts.Library.Family

/-!
# Well-known types

The types of the framework for which rules ask by identifier, with the
qualified name that each family gives them, and the library types that verdicts
consult whichever framework a program uses.
-/

namespace Verdicts

/-- A type of the framework. -/
inductive FrameworkType where
  | factAttribute
  | theoryAttribute
  | dataAttribute
  | inlineDataAttribute
  | memberDataAttribute
  | classDataAttribute
  | collectionAttribute
  | collectionDefinitionAttribute
  | classFixture
  | collectionFixture
  | theoryDataRow
  | registerXunitSerializerAttribute
  | assert
  /-- The serialization marker of the first generation. -/
  | xunitSerializable
  /-- The serialization marker of the second generation. -/
  | customXunitSerializable
  | xunitSerializer
  | testOutputHelper
  | messageSink
  | testCase
  | longLivedMarshalByRefObject
  | xunitTestCase
  | runnerLongLivedMarshalByRefObject
  deriving DecidableEq, Repr

namespace FrameworkType

/-- Every type of the framework, in the order of reports. -/
def all : List FrameworkType :=
  [.factAttribute, .theoryAttribute, .dataAttribute, .inlineDataAttribute,
   .memberDataAttribute, .classDataAttribute, .collectionAttribute,
   .collectionDefinitionAttribute, .classFixture, .collectionFixture, .theoryDataRow,
   .registerXunitSerializerAttribute, .assert, .xunitSerializable,
   .customXunitSerializable, .xunitSerializer, .testOutputHelper, .messageSink,
   .testCase, .longLivedMarshalByRefObject, .xunitTestCase,
   .runnerLongLivedMarshalByRefObject]

/-- The name under which machine-readable reports list the type. -/
def key : FrameworkType → String
  | .factAttribute => "fact_attribute"
  | .theoryAttribute => "theory_attribute"
  | .dataAttribute => "data_attribute"
  | .inlineDataAttribute => "inline_data_attribute"
  | .memberDataAttribute => "member_data_attribute"
  | .classDataAttribute => "class_data_attribute"
  | .collectionAttribute => "collection_attribute"
  | .collectionDefinitionAttribute => "collection_definition_attribute"
  | .classFixture => "class_fixture"
  | .collectionFixture => "collection_fixture"
  | .theoryDataRow => "theory_data_row"
  | .registerXunitSerializerAttribute => "register_xunit_serializer_attribute"
  | .assert => "assert"
  | .xunitSerializable => "xunit_serializable"
  | .customXunitSerializable => "custom_xunit_serializable"
  | .xunitSerializer => "xunit_serializer"
  | .testOutputHelper => "test_output_helper"
  | .messageSink => "message_sink"
  | .testCase => "test_case"
  | .longLivedMarshalByRefObject => "long_lived_marshal_by_ref_object"
  | .xunitTestCase => "xunit_test_case"
  | .runnerLongLivedMarshalByRefObject => "runner_long_lived_marshal_by_ref_object"

/-- The name under which reports for people list the type. -/
def title : FrameworkType → String
  | .factAttribute => "FactAttribute"
  | .theoryAttribute => "TheoryAttribute"
  | .dataAttribute => "DataAttribute"
  | .inlineDataAttribute => "InlineDataAttribute"
  | .memberDataAttribute => "MemberDataAttribute"
  | .classDataAttribute => "ClassDataAttribute"
  | .collectionAttribute => "CollectionAttribute"
  | .collectionDefinitionAttribute => "CollectionDefinitionAttribute"
  | .classFixture => "ClassFixture"
  | .collectionFixture => "CollectionFixture"
  | .theoryDataRow => "TheoryDataRow"
  | .registerXunitSerializerAttribute => "RegisterXunitSerializerAttribute"
  | .assert => "Assert"
  | .xunitSerializable => "XunitSerializable"
  | .customXunitSerializable => "CustomXunitSerializable"
  | .xunitSerializer => "XunitSerializer"
  | .testOutputHelper => "TestOutputHelper"
  | .messageSink => "MessageSink"
  | .testCase => "TestCase"
  | .longLivedMarshalByRefObject => "LongLivedMarshalByRefObject"
  | .xunitTestCase => "XunitTestCase"
  | .runnerLongLivedMarshalByRefObject => "RunnerLongLivedMarshalByRefObject"

/-- The type that machine-readable reports list under a name. -/
def ofKey? (key : String) : Option FrameworkType :=
  all.find? fun w => w.key = key

/-- The concern to which a type belongs. -/
def concern : FrameworkType → Concern
  | .factAttribute | .theoryAttribute | .dataAttribute | .inlineDataAttribute
  | .memberDataAttribute | .classDataAttribute | .collectionAttribute
  | .collectionDefinitionAttribute | .classFixture | .collectionFixture
  | .theoryDataRow | .registerXunitSerializerAttribute => .core
  | .assert => .assert
  | .xunitSerializable | .customXunitSerializable | .xunitSerializer
  | .testOutputHelper | .messageSink | .testCase => .abstractions
  | .longLivedMarshalByRefObject | .xunitTestCase => .execution
  | .runnerLongLivedMarshalByRefObject => .runnerUtility

/-- The types of a concern, in the order of reports. -/
def ofConcern (c : Concern) : List FrameworkType :=
  all.filter fun w => w.concern = c

/-- The qualified name of a type in a family, if the family defines it. -/
def qualifiedName? : FrameworkType → Family → Option String
  | .factAttribute, .coreV2 | .factAttribute, .coreV3 => some "Xunit.FactAttribute"
  | .theoryAttribute, .coreV2 | .theoryAttribute, .coreV3 => some "Xunit.TheoryAttribute"
  | .dataAttribute, .coreV2 => some "Xunit.Sdk.DataAttribute"
  | .dataAttribute, .coreV3 => some "Xunit.v3.DataAttribute"
  | .inlineDataAttribute, .coreV2 | .inlineDataAttribute, .coreV3 =>
    some "Xunit.InlineDataAttribute"
  | .memberDataAttribute, .coreV2 | .memberDataAttribute, .coreV3 =>
    some "Xunit.MemberDataAttribute"
  | .classDataAttribute, .coreV2 | .classDataAttribute, .coreV3 =>
    some "Xunit.ClassDataAttribute"
  | .collectionAttribute, .coreV2 | .collectionAttribute, .coreV3 =>
    some "Xunit.CollectionAttribute"
  | .collectionDefinitionAttribute, .coreV2 | .collectionDefinitionAttribute, .coreV3 =>
    some "Xunit.CollectionDefinitionAttribute"
  | .classFixture, .coreV2 | .classFixture, .coreV3 => some "Xunit.IClassFixture`1"
  | .collectionFixture, .coreV2 | .collectionFixture, .coreV3 =>
    some "Xunit.ICollectionFixture`1"
  | .theoryDataRow, .coreV3 => some "Xunit.TheoryDataRow"
  | .registerXunitSerializerAttribute, .coreV3 =>
    some "Xunit.Sdk.RegisterXunitSerializerAttribute"
  | .assert, .assertV2 | .assert, .assertV3 => some "Xunit.Assert"
  | .xunitSerializable, .abstractionsV2 => some "Xunit.Abstractions.IXunitSerializable"
  | .customXunitSerializable, .commonV3 => some "Xunit.Sdk.IXunitSerializable"
  | .xunitSerializer, .commonV3 => some "Xunit.Sdk.IXunitSerializer"
  | .testOutputHelper, .abstractionsV2 => some "Xunit.Abstractions.ITestOutputHelper"
  | .testOutputHelper, .commonV3 => some "Xunit.ITestOutputHelper"
  | .messageSink, .abstractionsV2 => some "Xunit.Abstractions.IMessageSink"
  | .messageSink, .commonV3 => some "Xunit.Sdk.IMessageSink"
  | .testCase, .abstractionsV2 => some "Xunit.Abstractions.ITestCase"
  | .longLivedMarshalByRefObject, .executionV2 => some "Xunit.LongLivedMarshalByRefObject"
  | .xunitTestCase, .executionV2 => some "Xunit.Sdk.XunitTestCase"
  | .runnerLongLivedMarshalByRefObject, .runnerUtilityV2
  | .runnerLongLivedMarshalByRefObject, .runnerUtilityV3 =>
    some "Xunit.Sdk.LongLivedMarshalByRefObject"
  | _, _ => none

end FrameworkType

/-- A library type that verdicts consult. -/
inductive SystemType where
  | dateTimeOffset
  | guid
  | timeSpan
  | dateOnly
  | timeOnly
  | bigInteger
  | dictionary
  | list
  deriving DecidableEq, Repr

namespace SystemType

/-- Every library type that verdicts consult. -/
def all : List SystemType :=
  [.dateTimeOffset, .guid, .timeSpan, .dateOnly, .timeOnly, .bigInteger,
   .dictionary, .list]

/-- The name under which reports list the type. -/
def key : SystemType → String
  | .dateTimeOffset => "date_time_offset"
  | .guid => "guid"
  | .timeSpan => "time_span"
  | .dateOnly => "date_only"
  | .timeOnly => "time_only"
  | .bigInteger => "big_integer"
  | .dictionary => "dictionary"
  | .list => "list"

/-- The qualified name of the type. -/
def qualifiedName : SystemType → String
  | .dateTimeOffset => "System.DateTimeOffset"
  | .guid => "System.Guid"
  | .timeSpan => "System.TimeSpan"
  | .dateOnly => "System.DateOnly"
  | .timeOnly => "System.TimeOnly"
  | .bigInteger => "System.Numerics.BigInteger"
  | .dictionary => "System.Collections.Generic.Dictionary`2"
  | .list => "System.Collections.Generic.List`1"

end SystemType

end Verdicts
