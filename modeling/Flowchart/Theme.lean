import Flowchart.Color.Reading

namespace Flowchart

structure Theme where
  fontFamily : String
  fontSize : Float32
  primaryColor : String
  primaryTextColor : String
  primaryBorderColor : String
  lineColor : String
  edgeLabelBackground : String
  clusterBackground : String
  clusterBorder : String
  background : String

namespace Theme

def standard : Theme where
  fontFamily := "\"trebuchet ms\", verdana, arial, sans-serif"
  fontSize := 16.0
  primaryColor := "#ECECFF"
  primaryTextColor := "#333333"
  primaryBorderColor := "#9370DB"
  lineColor := "#333333"
  edgeLabelBackground := "#E8E8E8"
  clusterBackground := "#FFFFDE"
  clusterBorder := "#AAAA33"
  background := "#FFFFFF"

def modern : Theme where
  fontFamily := "Inter, Segoe UI, system-ui, -apple-system, sans-serif"
  fontSize := 13.0
  primaryColor := "#F8FAFF"
  primaryTextColor := "#1C2430"
  primaryBorderColor := "#C7D2E5"
  lineColor := "#7A8AA6"
  edgeLabelBackground := "#FFFFFF"
  clusterBackground := "#F7FAFF"
  clusterBorder := "#D7E0F0"
  background := "#FFFFFF"

def named? (name : String) : Option Theme :=
  if name = "modern" then some modern
  else if name = "base" ∨ name = "default" ∨ name = "mermaid" then some standard
  else none

def nodeFill (t : Theme) : Color := Color.readOrBlack t.primaryColor

def nodeBorder (t : Theme) : Color := Color.readOrBlack t.primaryBorderColor

def textColor (t : Theme) : Color := Color.readOrBlack t.primaryTextColor

def edgeColor (t : Theme) : Color := Color.readOrBlack t.lineColor

end Theme
end Flowchart
