import MarkupLoader.Schema.Color
import MarkupLoader.Schema.Registry

/-!
# The standard controls

The types that every document may use, in the namespace of the controls. What a derived control
declares itself (its `own` part) is told apart from what it takes over.

Main definition: `Registry.controls`.
-/

namespace MarkupLoader.Controls

/-- A type in the namespace of the controls. -/
def control (localName : String) : TypeDescriptor := .named formsNamespace localName

/-- How a view uses the room that it is given. -/
def layoutOptions : PropertyType :=
  .oneOf ["Start", "Center", "End", "Fill", "StartAndExpand", "CenterAndExpand", "EndAndExpand",
    "FillAndExpand"]

/-- The base of everything visible. -/
def element : TypeDescriptor :=
  control "Element"
    |>.property "StyleId" .string

/-- What `VisualElement` declares itself. -/
def visualElement.own : TypeDescriptor :=
  control "VisualElement"
    |>.property "IsVisible" .bool
    |>.property "IsEnabled" .bool
    |>.property "Opacity" .float
    |>.property "BackgroundColor" (.object (some "Color"))
    |>.property "Resources" .dictionary
    |>.property "Style" (.object (some "Style"))

/-- What can be shown. -/
def visualElement : TypeDescriptor := visualElement.own.derivedFrom element

/-- What `View` declares itself. -/
def view.own : TypeDescriptor :=
  control "View"
    |>.property "Margin" .string
    |>.property "HorizontalOptions" layoutOptions
    |>.property "VerticalOptions" layoutOptions

/-- What can be laid out. -/
def view : TypeDescriptor := view.own.derivedFrom visualElement

/-- What `Page` declares itself. -/
def page.own : TypeDescriptor :=
  control "Page"
    |>.property "Title" .string
    |>.property "Padding" .string

/-- A page. -/
def page : TypeDescriptor := page.own.derivedFrom visualElement

/-- What `ContentPage` declares itself. -/
def contentPage.own : TypeDescriptor :=
  control "ContentPage"
    |>.property "Content" (.object (some "View"))
    |>.content "Content"

/-- A page with one view. -/
def contentPage : TypeDescriptor := contentPage.own.derivedFrom page

/-- What `ContentView` declares itself. -/
def contentView.own : TypeDescriptor :=
  control "ContentView"
    |>.property "Content" (.object (some "View"))
    |>.content "Content"

/-- A view with one view inside. -/
def contentView : TypeDescriptor := contentView.own.derivedFrom view

/-- What `StackLayout` declares itself. -/
def stackLayout.own : TypeDescriptor :=
  control "StackLayout"
    |>.property "Children" .collection
    |>.property "Orientation" (.oneOf ["Vertical", "Horizontal"])
    |>.property "Spacing" .float
    |>.content "Children"

/-- Views one after the other. -/
def stackLayout : TypeDescriptor := stackLayout.own.derivedFrom view

/-- What `Grid` declares itself. -/
def grid.own : TypeDescriptor :=
  control "Grid"
    |>.property "Children" .collection
    |>.property "RowSpacing" .float
    |>.property "ColumnSpacing" .float
    |>.attachedProperty "Row" .int
    |>.attachedProperty "Column" .int
    |>.attachedProperty "RowSpan" .int
    |>.attachedProperty "ColumnSpan" .int
    |>.content "Children"

/-- Views in rows and columns; a view says where it stands. -/
def grid : TypeDescriptor := grid.own.derivedFrom view

/-- What `Label` declares itself. -/
def label.own : TypeDescriptor :=
  control "Label"
    |>.property "Text" .string
    |>.property "FontSize" .float
    |>.property "TextColor" (.object (some "Color"))
    |>.property "FontAttributes" (.oneOf ["None", "Bold", "Italic"])
    |>.content "Text"

/-- A text. -/
def label : TypeDescriptor := label.own.derivedFrom view

/-- What `Button` declares itself. -/
def button.own : TypeDescriptor :=
  control "Button"
    |>.property "Text" .string
    |>.property "Command" .any
    |>.property "CommandParameter" .any

/-- A button. -/
def button : TypeDescriptor := button.own.derivedFrom view

/-- What `Entry` declares itself. -/
def entry.own : TypeDescriptor :=
  control "Entry"
    |>.property "Text" .string
    |>.property "Placeholder" .string
    |>.property "IsPassword" .bool

/-- A field for a line of text. -/
def entry : TypeDescriptor := entry.own.derivedFrom view

/-- What `Image` declares itself. -/
def image.own : TypeDescriptor :=
  control "Image"
    |>.property "Source" .string

/-- An image. -/
def image : TypeDescriptor := image.own.derivedFrom view

/-- What `ListView` declares itself. -/
def listView.own : TypeDescriptor :=
  control "ListView"
    |>.property "ItemsSource" .any
    |>.property "ItemTemplate" (.object (some "DataTemplate"))
    |>.property "Header" .any
    |>.property "RowHeight" .int

/-- A list of items, each shown by a template. -/
def listView : TypeDescriptor := listView.own.derivedFrom view

/-- A cell with one view. -/
def viewCell : TypeDescriptor :=
  control "ViewCell"
    |>.property "View" (.object (some "View"))
    |>.content "View"

/-- Resources under keys. -/
def resourceDictionary : TypeDescriptor :=
  control "ResourceDictionary"
    |>.withKind .dictionary

/-- A template for an item. -/
def dataTemplate : TypeDescriptor :=
  control "DataTemplate"
    |>.withKind .template

/-- A template for a control. -/
def controlTemplate : TypeDescriptor :=
  control "ControlTemplate"
    |>.withKind .template

/-- A value for a property, as part of a style. -/
def setter : TypeDescriptor :=
  control "Setter"
    |>.property "Property" .string
    |>.property "Value" .any

/-- Setters for objects of a type. -/
def style : TypeDescriptor :=
  control "Style"
    |>.property "TargetType" .any
    |>.property "BasedOn" (.object (some "Style"))
    |>.property "Setters" .collection
    |>.content "Setters"
    |>.constructor ["TargetType"]

/-- A colour. -/
def color : TypeDescriptor :=
  control "Color"
    |>.property "R" .float
    |>.property "G" .float
    |>.property "B" .float
    |>.property "A" .float
    |>.constructor ["R", "G", "B"]
    |>.factory "FromHex" Color.fromHex
    |>.factory "FromRgba" Color.fromRgba

/-- The standard controls, in the order they are registered. -/
def all : List TypeDescriptor :=
  [element, visualElement, view, page, contentPage, contentView, stackLayout, grid, label,
  button, entry, image, listView, viewCell, resourceDictionary, dataTemplate, controlTemplate,
  setter, style, color]

end MarkupLoader.Controls

namespace MarkupLoader

/-- The registry of the standard controls. -/
def Registry.controls : Registry := Controls.all.foldl register empty

end MarkupLoader
